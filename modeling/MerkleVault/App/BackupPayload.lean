import MerkleVault.App.Host
import MerkleVault.Sqlite.SecretColumns
import MerkleVault.Sqlite.TimestampReader
import Mathlib

/-!
# Backup Payloads

The plaintext of a backup is JSON in one of two formats: an array of secrets, or an object with the
wrapped root key and the secrets.  Nothing in the text names the format, the first that can be read is
taken.  The secrets are those that `list_secrets` read.

* `formats_apart`: a text of one format is never read as the other;
* `payload_round_trip_iff`: which payloads come back, with their times cut to microseconds;
* `payload_round_trip`: every list of secrets that was listed does;
* `decoded_summary`: what restore and recovery work on.
-/

namespace MerkleVault.App.BackupPayload

open MerkleVault.Types MerkleVault.External MerkleVault.Lib.Serde MerkleVault.Lib.Ascii
open MerkleVault.Sqlite.AuditRows MerkleVault.Sqlite.TimestampText MerkleVault.Sqlite.TimestampReader
open MerkleVault.Sqlite.AuditQueries MerkleVault.Secrets.Serialized MerkleVault.App.Host
open MerkleVault.Audit.Integrity MerkleVault.Sqlite.SecretColumns

/-! ### The formats -/

/-- `BACKUP_FORMAT_V2`. -/
def backupFormatV2 : String := "merkle-backup-v2"

/-- `BackupPayloadV2`. -/
structure BackupPayloadV2 where
  format : String
  vrkRecoveryAge : List UInt8
  secrets : List Secret
deriving DecidableEq

/-- What a backup holds, in either format. -/
inductive BackupPlaintext
  | v1 (secrets : List Secret)
  | v2 (payload : BackupPayloadV2)
deriving DecidableEq

/-- The secrets of either format. -/
def BackupPlaintext.secrets : BackupPlaintext → List Secret
  | v1 secrets => secrets
  | v2 payload => payload.secrets

/-- The wrapped root key, of the second format. -/
def BackupPlaintext.vrkRecoveryAge : BackupPlaintext → Option (List UInt8)
  | v1 _ => none
  | v2 payload => some payload.vrkRecoveryAge

/-- `encode_v2`. -/
def encodeV2 (vrkRecoveryAge : List UInt8) (secrets : List Secret) : BackupPayloadV2 :=
  ⟨backupFormatV2, vrkRecoveryAge, secrets⟩

section

variable (K : Crates) (R : Readers) (J : JsonText)

/-- The payload of the second format, with its three fields. -/
def backupPayloadV2 : Codec BackupPayloadV2 :=
  record ["format", "vrk_recovery_age", "secrets"] false
    (fun p => [text.ser p.format, (list byte).ser p.vrkRecoveryAge, (list (secret K R)).ser p.secrets]) fun
    | [format, vrkRecoveryAge, secrets] => do
      return ⟨← required text format, ← required (list byte) vrkRecoveryAge,
        ← required (list (secret K R)) secrets⟩
    | _ => none

/-- `BackupPlaintext` is untagged. -/
def backupPlaintext (v : Value) : Option BackupPlaintext :=
  ((untagged (list (secret K R)) (backupPayloadV2 K R)).de v).map (Sum.elim .v1 .v2)

/-- `BackupPlaintext::decode`. -/
def decode (plaintext : List UInt8) : Except String BackupPlaintext :=
  match J.fromSlice plaintext with
  | .error e => .error ("backup payload is not valid JSON: " ++ e)
  | .ok v => match backupPlaintext K R v with
    | some payload => .ok payload
    | none => .error ("backup payload is not valid JSON: " ++
        "data did not match any variant of untagged enum BackupPlaintext")

/-- The value of a bare list of secrets. -/
def valueV1 (secrets : List Secret) : Value := (list (secret K R)).ser secrets

/-- The JSON value of a backup in the second format. -/
def valueV2 (vrkRecoveryAge : List UInt8) (secrets : List Secret) : Value :=
  (backupPayloadV2 K R).ser (encodeV2 vrkRecoveryAge secrets)

end

/-! ### Two formats -/

section Formats

variable {K : Crates} {R : Readers} {J : JsonText}

/-- A list of secrets is no sequence of the fields of the second format: the first would be a text. -/
theorem not_v2_of_list (secrets : List Secret) :
    (backupPayloadV2 K R).de (valueV1 K R secrets) = none := by
  rcases secrets with - | ⟨a, - | ⟨b, - | ⟨c, - | ⟨d, secrets⟩⟩⟩⟩
  · rfl
  · rfl
  · rfl
  · rfl
  · -- more elements than fields
    simp [backupPayloadV2, record, valueV1, list, fieldValues]

theorem not_v1_of_object (payload : BackupPayloadV2) :
    (list (secret K R)).de ((backupPayloadV2 K R).ser payload) = none := rfl

theorem backupPlaintext_v1 (secrets : List Secret) : backupPlaintext K R (valueV1 K R secrets) =
    ((list (secret K R)).through secrets).map .v1 := by
  have hsecond := not_v2_of_list (K := K) (R := R) secrets
  have hfirst : (list (secret K R)).de (valueV1 K R secrets) = (list (secret K R)).through secrets := rfl
  simp only [backupPlaintext, untagged, hsecond, hfirst, Option.map_none, Option.or_none,
    Option.map_map]
  rfl

theorem backupPlaintext_v2 (payload : BackupPayloadV2) :
    backupPlaintext K R ((backupPayloadV2 K R).ser payload) =
      ((backupPayloadV2 K R).through payload).map .v2 := by
  simp only [backupPlaintext, untagged, not_v1_of_object, Option.map_none, Option.none_or,
    Option.map_map]
  rfl

theorem decode_text {v : Value} (hv : J.ReadsBack v) {payload : BackupPlaintext} :
    decode K R J (J.toVec v) = .ok payload ↔ backupPlaintext K R v = some payload := by
  unfold JsonText.ReadsBack at hv
  unfold decode
  simp only [hv]
  cases backupPlaintext K R v <;> simp

/-- **A text of one format is never read as the other**, whatever the secrets hold. -/
theorem formats_apart {vrkRecoveryAge : List UInt8} {secrets : List Secret}
    (h₁ : J.ReadsBack (valueV1 K R secrets)) (h₂ : J.ReadsBack (valueV2 K R vrkRecoveryAge secrets)) :
    (∀ payload, decode K R J (J.toVec (valueV1 K R secrets)) ≠ .ok (.v2 payload)) ∧
      ∀ l, decode K R J (J.toVec (valueV2 K R vrkRecoveryAge secrets)) ≠ .ok (.v1 l) := by
  constructor
  · intro payload h
    rw [decode_text h₁, backupPlaintext_v1, Option.map_eq_some_iff] at h
    obtain ⟨l, -, hl⟩ := h
    cases hl
  · intro l h
    rw [decode_text h₂, valueV2, backupPlaintext_v2, Option.map_eq_some_iff] at h
    obtain ⟨payload, -, hp⟩ := h
    cases hp

end Formats

/-! ### The round trip -/

section RoundTrip

variable {K : Crates} {R : Readers} (hR : R.Lawful K) (hyears : RefusesOtherYears K R)

include hR hyears in
theorem backupPayloadV2_cuts : Cuts (backupPayloadV2 K R) (fun p => ∀ s ∈ p.secrets, s.Dated)
    fun p => { p with secrets := p.secrets.map Secret.cut } := by
  have hsecrets := (secret_cuts hR hyears).list
  have hthrough : ∀ p : BackupPayloadV2, (backupPayloadV2 K R).through p =
      ((list (secret K R)).through p.secrets).map fun secrets => { p with secrets := secrets } := by
    intro p
    rw [backupPayloadV2, record_through (by decide) rfl]
    simp only [List.map_cons, List.map_nil, required_ser, lossless_text p.format,
      lossless_byte.list p.vrkRecoveryAge]
    cases (list (secret K R)).through p.secrets <;> rfl
  constructor
  · intro p hp
    rw [hthrough, hsecrets.inside _ hp]
    rfl
  · intro p hp
    rw [hthrough, hsecrets.outside _ hp]
    rfl

/-- Both texts are decoded in their format, with the blob and the secrets that went in, and neither is
read as the other. -/
structure ComesBack (K : Crates) (R : Readers) (J : JsonText) (vrkRecoveryAge : List UInt8)
    (secrets : List Secret) : Prop where
  v2 : decode K R J (J.toVec (valueV2 K R vrkRecoveryAge secrets)) =
    .ok (.v2 (encodeV2 vrkRecoveryAge (secrets.map Secret.cut)))
  v1 : decode K R J (J.toVec (valueV1 K R secrets)) = .ok (.v1 (secrets.map Secret.cut))
  not_v2 : ∀ payload, decode K R J (J.toVec (valueV1 K R secrets)) ≠ .ok (.v2 payload)
  not_v1 : ∀ l, decode K R J (J.toVec (valueV2 K R vrkRecoveryAge secrets)) ≠ .ok (.v1 l)

/-- **Payloads come back**, in their format and with their times cut to microseconds, if and only if
all times are in years of four digits. -/
theorem payload_round_trip_iff (J : JsonText) (hR : R.Lawful K) (hyears : RefusesOtherYears K R)
    (vrkRecoveryAge : List UInt8) (secrets : List Secret) (h₁ : J.ReadsBack (valueV1 K R secrets))
    (h₂ : J.ReadsBack (valueV2 K R vrkRecoveryAge secrets)) :
    ComesBack K R J vrkRecoveryAge secrets ↔ ∀ s ∈ secrets, s.Dated := by
  have hsecrets := (secret_cuts hR hyears).list
  have hpayload := backupPayloadV2_cuts hR hyears
  have hv1 : decode K R J (J.toVec (valueV1 K R secrets)) = .ok (.v1 (secrets.map Secret.cut)) ↔
      ((list (secret K R)).through secrets).map BackupPlaintext.v1 =
        some (.v1 (secrets.map Secret.cut)) := by
    rw [decode_text h₁, backupPlaintext_v1]
  have hv2 : decode K R J (J.toVec (valueV2 K R vrkRecoveryAge secrets)) =
      .ok (.v2 (encodeV2 vrkRecoveryAge (secrets.map Secret.cut))) ↔
        ((backupPayloadV2 K R).through (encodeV2 vrkRecoveryAge secrets)).map BackupPlaintext.v2 =
          some (.v2 (encodeV2 vrkRecoveryAge (secrets.map Secret.cut))) := by
    rw [decode_text h₂, valueV2, backupPlaintext_v2]
  constructor
  · intro h
    by_contra hno
    have h' := hv1.mp h.v1
    rw [hsecrets.outside _ hno] at h'
    cases h'
  · intro hdated
    obtain ⟨hnot2, hnot1⟩ := formats_apart h₁ h₂
    refine ⟨hv2.mpr ?_, hv1.mpr ?_, hnot2, hnot1⟩
    · rw [hpayload.inside (encodeV2 vrkRecoveryAge secrets) hdated]
      rfl
    · rw [hsecrets.inside _ hdated]
      rfl

/-- **What is backed up comes back.**  The secrets of a backup are those that `list_secrets` read, from
whatever the tables hold: both of their texts are decoded in their own format, with the blob and the
secrets, times at microseconds, and neither is read as the other. -/
theorem payload_round_trip (J : JsonText) (hR : R.Lawful K) (hyears : RefusesOtherYears K R)
    {versions : List StoredVersion} {rows : List StoredSecret} {secrets : List Secret}
    (hlisted : listSecrets K R J versions rows = .ok secrets) (vrkRecoveryAge : List UInt8)
    (h₁ : J.ReadsBack (valueV1 K R secrets)) (h₂ : J.ReadsBack (valueV2 K R vrkRecoveryAge secrets)) :
    ComesBack K R J vrkRecoveryAge secrets :=
  (payload_round_trip_iff J hR hyears vrkRecoveryAge secrets h₁ h₂).mpr
    (listSecrets_dated hR hyears hlisted)

end RoundTrip

/-! ### What restore and recovery work on -/

/-- The payload, as the restore commands read it. -/
def BackupPlaintext.summary (p : BackupPlaintext) : Context.BackupPlaintext :=
  ⟨p.vrkRecoveryAge, p.secrets.map Secret.aggregate⟩

/-- The JSON value of a backup. -/
def BackupPlaintext.value (K : Crates) (R : Readers) : BackupPlaintext → Value
  | v1 secrets => valueV1 K R secrets
  | v2 payload => (backupPayloadV2 K R).ser payload

theorem aggregate_cut (s : Secret) : s.cut.aggregate = jsonSecret s.aggregate := by
  unfold Secret.aggregate Secret.cut jsonSecret
  simp only [List.map_map]
  rfl

/-- **Restore and recovery see the secrets** that were backed up, with their times cut. -/
theorem decoded_summary {K : Crates} {R : Readers} {J : JsonText} (hR : R.Lawful K)
    (hyears : RefusesOtherYears K R) {payload : BackupPlaintext} (hdated : ∀ s ∈ payload.secrets, s.Dated)
    (h : J.ReadsBack (payload.value K R)) :
    ∃ payload', decode K R J (J.toVec (payload.value K R)) = .ok payload' ∧
      payload'.summary =
        { payload.summary with secrets := payload.summary.secrets.map jsonSecret } := by
  have hmap : ∀ secrets : List Secret, (secrets.map Secret.cut).map Secret.aggregate =
      (secrets.map Secret.aggregate).map jsonSecret := by
    intro secrets
    rw [List.map_map, List.map_map]
    exact List.map_congr_left fun s _ => aggregate_cut s
  cases payload with
  | v1 secrets =>
    refine ⟨.v1 (secrets.map Secret.cut), (decode_text h).mpr ?_, ?_⟩
    · have hsecrets := (secret_cuts hR hyears).list.inside secrets hdated
      rw [BackupPlaintext.value, backupPlaintext_v1, hsecrets]
      rfl
    · exact congrArg (Context.BackupPlaintext.mk none) (hmap secrets)
  | v2 p =>
    refine ⟨.v2 { p with secrets := p.secrets.map Secret.cut }, (decode_text h).mpr ?_, ?_⟩
    · rw [BackupPlaintext.value, backupPlaintext_v2, (backupPayloadV2_cuts hR hyears).inside _ hdated]
      rfl
    · exact congrArg (Context.BackupPlaintext.mk (some p.vrkRecoveryAge)) (hmap p.secrets)

/-! ### A secret with two versions -/

/-- `to_vec` of a value. -/
def jsonText (v : Value) : List UInt8 := textBytes (compactText v)

/-- The texts of some values, read back. -/
def jsonOf (values : List Value) : JsonText where
  toVec := jsonText
  fromSlice bytes := match values.find? fun v => jsonText v = bytes with
    | some v => .ok v
    | none => .error "expected value at line 1 column 1"

theorem render_eq {v w : Value} (h : jsonText v = jsonText w) : render v = render w :=
  String.ofList_injective (utf8_injective h)

/-- Values whose texts differ in the first characters are read back. -/
theorem jsonOf_reads {values : List Value} (hheads : (values.map fun v => (render v).take 4).Nodup)
    {v : Value} (hv : v ∈ values) : (jsonOf values).ReadsBack v := by
  unfold JsonText.ReadsBack jsonOf
  cases hfind : values.find? fun w => jsonText w = jsonText v with
  | none => exact absurd (List.find?_eq_none.mp hfind v hv) (by simp)
  | some w =>
    have hw : jsonText w = jsonText v := by
      have := List.find?_some hfind
      exact of_decide_eq_true this
    have hsame : w = v := List.inj_on_of_nodup_map hheads (List.mem_of_find?_eq_some hfind) hv
      (congrArg (List.take 4) (render_eq hw))
    simp only [hfind, hsame]

theorem flatten_intersperse_head {α : Type} (sep x : List α) (xs : List (List α)) : ∃ rest,
    ((x :: xs).intersperse sep).flatten = x ++ rest := by
  cases xs with
  | nil => exact ⟨[], by simp⟩
  | cons y xs => exact ⟨_, by rw [List.intersperse_cons_cons, List.flatten_cons]⟩

/-- The text of an object starts with the name of its first member. -/
theorem render_object (value : Value) (name : String) {v : Value} {m : List (String × Value)}
    (h : value = .object ((name, v) :: m)) : ∃ rest,
      render value = '\x7b' :: '"' :: (Lib.Json.stringBody name.toList ++ rest) := by
  subst h
  rw [render, List.attach_cons, List.map_cons]
  obtain ⟨rest, hrest⟩ := flatten_intersperse_head [',']
    ('"' :: Lib.Json.stringBody name.toList ++ ':' :: render v) _
  rw [hrest]
  exact ⟨':' :: render v ++ rest ++ ['\x7d'], by simp⟩

/-- The text of an array starts with its first element. -/
theorem render_array (v : Value) (l : List Value) : ∃ rest,
    render (.array (v :: l)) = '[' :: (render v ++ rest) := by
  rw [render, List.attach_cons, List.map_cons]
  obtain ⟨rest, hrest⟩ := flatten_intersperse_head [','] (render v) _
  rw [hrest]
  exact ⟨rest ++ [']'], by simp⟩

/-- Readers of printed identifiers and of RFC 3339. -/
noncomputable def rfcReaders : Readers where
  parseUuid := (Readers.inverse printingCrates).parseUuid
  parseRfc3339 := fieldReaders.parseRfc3339

theorem rfcReaders_reads {t : Rfc3339Timestamp} (ht : FourDigitYear t) :
    rfcReaders.parseRfc3339 (printingCrates.toRfc3339 t) = some t.atMicros := by
  unfold rfcReaders
  rw [printing_renders t ht, rfc3339_eq_text ht, fieldReaders_reads (fieldsOf ht), instant_fieldsOf]

theorem rfcReaders_lawful : rfcReaders.Lawful printingCrates := by
  obtain ⟨huuid, -, hmicros⟩ := printing_lawful
  have huuid' : ∀ u, rfcReaders.parseUuid (printingCrates.hyphenated u) = some u := by
    intro u
    unfold rfcReaders
    dsimp only
    rw [huuid]
  exact ⟨huuid', fun _ ht => rfcReaders_reads ht, hmicros⟩

theorem rfcReaders_refuse : RefusesOtherYears printingCrates rfcReaders := by
  intro t ht
  have hsign : signChar t = '-' ∨ signChar t = '+' := by
    unfold signChar
    split_ifs <;> simp
  have hepoch : t.micros ≠ (0, 0) := by
    intro h
    have hzero : t.timestamp = 0 := congrArg Prod.fst h
    exact ht ⟨by omega, by omega⟩
  have htext : printingCrates.toRfc3339 t = String.ofList (epochText t) := if_neg ht
  have hfields : Lib.FixedWidth.readFields shape (epochText t) = none := by
    rw [epochText, if_neg hepoch]
    rcases hsign with h | h <;> rw [h] <;> rfl
  change (readText _).map _ = none
  rw [htext]
  unfold readText
  rw [String.toList_ofList, hfields]
  rfl

theorem sampleUuid_version :
    ∀ n < 16, versionNum (Vector.replicate 16 (0x70 + UInt8.ofNat n)) = 7 := by
  decide

/-- A UUID of version 7 for each number. -/
def sampleUuid (n : ℕ) : UuidV7 :=
  ⟨Vector.replicate 16 (0x70 + UInt8.ofNat (n % 16)), sampleUuid_version _ (Nat.mod_lt _ (by decide))⟩

/-- A version of the sample secret. -/
def sampleVersion (id : UuidV7) (n : UInt32) (deprecatedAt : Option Rfc3339Timestamp) : SecretVersion where
  id := id
  secretId := sampleUuid 1
  versionNo := n
  blob := ⟨[1, 2], Vector.replicate 24 0, Vector.replicate 16 0, [5], 1⟩
  dekVersion := 1
  createdAt := epoch
  deprecatedAt := deprecatedAt

/-- A rotated secret with a tag, search words and an expiry. -/
def rotated : Secret where
  id := sampleUuid 1
  namespaceId := sampleUuid 2
  handle := ⟨sampleLabel, .database, sampleSecretName⟩
  category := .database
  sensitivity := .low
  tags := [⟨.env, ⟨"live", by decide⟩⟩]
  publicMetadata := ⟨some "primary", false, some ["orders", "billing"], some epoch, none, none, none⟩
  createdAt := epoch
  versions := [sampleVersion (sampleUuid 3) 1 (some epoch), sampleVersion (sampleUuid 4) 2 none]
  currentVersionId := sampleUuid 4

theorem rotated_dated : rotated.Dated := by
  refine ⟨fun t ht => ?_, fourDigitYear_epoch, fun v hv => ?_⟩
  · rw [← Option.some.inj ht]
    exact fourDigitYear_epoch
  · rcases List.mem_pair.mp hv with rfl | rfl
    · refine ⟨fourDigitYear_epoch, fun t ht => ?_⟩
      rw [← Option.some.inj ht]
      exact fourDigitYear_epoch
    · exact ⟨fourDigitYear_epoch, nofun⟩

/-- A backup of a rotated secret in the first format. -/
noncomputable def sampleV1 : Value := valueV1 printingCrates rfcReaders [storedSecret rotated]

/-- The same in the second format. -/
noncomputable def sampleV2 : Value := valueV2 printingCrates rfcReaders [7] [storedSecret rotated]

/-- Its metadata. -/
noncomputable def sampleMetadata : Value :=
  (publicMetadata printingCrates rfcReaders).ser rotated.publicMetadata

/-- Its tags. -/
def sampleTags : Value := (list tag).ser rotated.tags

/-- Values of every kind that is read back. -/
noncomputable def sampleValues : List Value := [sampleV1, sampleV2, sampleMetadata, sampleTags]

theorem sampleValues_heads : (sampleValues.map fun v => (render v).take 4).Nodup := by
  have hv1 : (render sampleV1).take 4 = ['[', '\x7b', '"', 'i'] := by
    obtain ⟨rest, hrest⟩ := render_array ((secret printingCrates rfcReaders).ser (storedSecret rotated)) []
    obtain ⟨rest', hrest'⟩ := render_object ((secret printingCrates rfcReaders).ser (storedSecret rotated))
      "id" rfl
    rw [hrest'] at hrest
    exact congrArg (List.take 4) hrest
  have hv2 : (render sampleV2).take 4 = ['\x7b', '"', 'f', 'o'] := by
    obtain ⟨rest, hrest⟩ := render_object sampleV2 "format" rfl
    exact congrArg (List.take 4) hrest
  have hmetadata : (render sampleMetadata).take 4 = ['\x7b', '"', 'd', 'e'] := by
    obtain ⟨rest, hrest⟩ := render_object sampleMetadata "description" rfl
    exact congrArg (List.take 4) hrest
  have htags : (render sampleTags).take 4 = ['[', '\x7b', '"', 'k'] := by
    obtain ⟨rest, hrest⟩ := render_array (tag.ser ⟨.env, ⟨"live", by decide⟩⟩) []
    obtain ⟨rest', hrest'⟩ := render_object (tag.ser ⟨.env, ⟨"live", by decide⟩⟩) "key" rfl
    rw [hrest'] at hrest
    exact congrArg (List.take 4) hrest
  simp only [sampleValues, List.map_cons, List.map_nil, hv1, hv2, hmetadata, htags]
  decide

/-- The rows of its versions. -/
noncomputable def sampleVersions : List StoredVersion :=
  rotated.versions.map (versionColumns printingCrates rotated.id)

theorem rotated_listed : listSecrets printingCrates rfcReaders (jsonOf sampleValues) sampleVersions
    [secretColumns printingCrates rfcReaders (jsonOf sampleValues) rotated] =
      .ok [storedSecret rotated] := by
  have hreads : ReadsColumns printingCrates rfcReaders (jsonOf sampleValues) rotated :=
    ⟨jsonOf_reads (v := sampleMetadata) sampleValues_heads (by simp [sampleValues]),
      jsonOf_reads (v := sampleTags) sampleValues_heads (by simp [sampleValues])⟩
  refine @listSecrets_columns _ _ _ rfcReaders_lawful rfcReaders_refuse sampleVersions
    [rotated] ?_ ?_ ?_ ?_
  · exact List.forall_mem_singleton.mpr rotated_dated
  · exact List.forall_mem_singleton.mpr hreads
  · exact List.forall_mem_singleton.mpr rfl
  · exact List.forall_mem_singleton.mpr (by decide)

/-- The secret is listed, and comes back in both formats. -/
theorem rotated_returns :
    decode printingCrates rfcReaders (jsonOf sampleValues) (jsonText sampleV2) =
        .ok (.v2 (encodeV2 [7] [storedSecret rotated])) ∧
      decode printingCrates rfcReaders (jsonOf sampleValues) (jsonText sampleV1) =
        .ok (.v1 [storedSecret rotated]) := by
  have hback := payload_round_trip _ rfcReaders_lawful rfcReaders_refuse rotated_listed [7]
    (jsonOf_reads (v := sampleV1) sampleValues_heads (by simp [sampleValues]))
    (jsonOf_reads (v := sampleV2) sampleValues_heads (by simp [sampleValues]))
  have hv2 := hback.v2
  have hv1 := hback.v1
  rw [List.map_singleton, cut_storedSecret] at hv1 hv2
  exact ⟨hv2, hv1⟩

end MerkleVault.App.BackupPayload
