import MerkleVault.App.Context

/-! # The Rendezvous of a Challenge and its Answer

A channel presents a challenge to the operator and hands the answer to the call that waits for it.
The two meet in a registry of one-shot channels, in which the call is entered only when it starts to
wait.  Answers, timers and the call interleave in any way; the clock is that of the timers.  The
prompts of all challenges read one terminal, a key each: whichever prompt reads next takes the next
key, a prompt goes on reading after its call has ended, and of a line only the first key answers.

* `Exchange.act`, `Step`: what one action does to one challenge, and to the keys of the terminal;
* `answers_delivered`: an answer is what the call returns when it is recorded after the call is
  entered, nothing expires before the call does, and each prompt reads the answer to its own
  challenge; an approval is not made up when no prompt takes the approving key of another. -/

namespace MerkleVault.Oob.Rendezvous

open MerkleVault.Types MerkleVault.App.Context

/-! ### The registry -/

/-- A one-shot channel, as its receiver finds it. -/
inductive OneShot
  | pending
  | sent (res : OobResolution)
  | closed
deriving DecidableEq

/-- The registry of pending challenges at one challenge: the sender that is entered, and the channels
that were made, in order. -/
structure Registration where
  sender : Option ℕ
  shots : List OneShot

/-- `PendingChallengeRegistry::register`: a new channel; the sender that was entered is dropped. -/
def Registration.register (g : Registration) : ℕ × Registration :=
  let shots := match g.sender with
    | some old => g.shots.set old .closed
    | none => g.shots
  (shots.length, ⟨some shots.length, shots ++ [.pending]⟩)

/-- `PendingChallengeRegistry::resolve`: the sender is taken out and sends. -/
def Registration.resolve (g : Registration) (res : OobResolution) : Registration :=
  match g.sender with
  | some sender => ⟨none, g.shots.set sender (.sent res)⟩
  | none => g

/-! ### One challenge -/

/-- Where a challenge is answered. -/
inductive Channel
  | localhostConfirm
  | terminalPrompt (autoDeny : Bool)
deriving DecidableEq

/-- What the operator says, and when. -/
structure Answer where
  outcome : OobChallengeOutcome
  time : ℕ
deriving DecidableEq

/-- A key that the terminal has ready (a byte of a line), and the challenge that it answers: the first
key of a line that was typed as an answer. -/
structure Keystroke where
  char : Char
  meant : Option ChallengeId
deriving DecidableEq

/-- The keys `y` and `Y`. -/
def approves (key : Char) : Bool := key = 'y' || key = 'Y'

/-- What the key that was pressed stands for. -/
def outcomeOf (key : Char) : OobChallengeOutcome := if approves key then .approved else .denied

/-- The key of a line that a prompt would read: the first, or the end of an empty line. -/
def firstKey (line : List Char) : Char := line.headD '\n'

/-- The keys of a line, which the terminal has ready when the line is ended. -/
def keystrokes (meant : Option ChallengeId) (line : List Char) : List Keystroke :=
  ⟨firstKey line, meant⟩ :: (line ++ ['\n']).tail.map (⟨·, none⟩)

/-- Where `RevealSecretCommand` is with the challenge. -/
inductive Call
  | idle
  | dispatching
  | dispatchFailed
  | dispatched
  | waiting (receiver deadline : ℕ)
  | returned (deadline : ℕ) (result : Except OobError OobResolution)
deriving DecidableEq

/-- The blocking task that prompts and reads a key. -/
inductive Prompt
  | none | spawned | prompted | ended
deriving DecidableEq

/-- The prompt is on the terminal. -/
def Prompt.shown : Prompt → Bool
  | .prompted => true
  | .ended => true
  | _ => false

/-- The task that forwards the key to the registry, or `Expired` after its deadline. -/
inductive Forwarder
  | none
  | spawned (duration : ℕ)
  | watching (deadline : ℕ)
  | ended
deriving DecidableEq

/-- One challenge: what is registered, asked and answered for it. -/
structure Exchange where
  registration : Registration
  preResolved : Option OobResolution
  call : Call
  presented : Bool
  prompt : Prompt
  /-- From the prompt to the forwarder. -/
  tty : OneShot
  forwarder : Forwarder
  /-- The answers that the operator gave after the challenge was presented. -/
  answers : List Answer

/-- A challenge that nobody dispatched. -/
def Exchange.new : Exchange where
  registration := ⟨none, []⟩
  preResolved := none
  call := .idle
  presented := false
  prompt := .none
  tty := .pending
  forwarder := .none
  answers := []

/-- What can happen to one challenge. -/
inductive Action
  /-- `dispatch`, with the `expires_at` of the challenge and the time read in it. -/
  | dispatch (expiresAt now : Rfc3339Timestamp)
  /-- The page is opened, or the prompt is written. -/
  | present
  | dispatchReturns
  | dispatchFails
  | awaitResolution (timeout : ℕ)
  /-- The call that waits is polled. -/
  | poll
  /-- `POST /oob/{id}/approve` and `/deny`. -/
  | post (approve : Bool) (now : Rfc3339Timestamp)
  | readFails
  | promptDies
  | startForwarder
  | pollForwarder

/-- `TimeDelta::num_milliseconds` of the difference. -/
def millisBetween (a b : Rfc3339Timestamp) : ℤ :=
  ((a.timestamp - b.timestamp) * 1000000000 + ((a.subsec : ℤ) - b.subsec)).tdiv 1000000

/-- The time until `expires_at`, at least one millisecond. -/
def deadlineDuration (expiresAt now : Rfc3339Timestamp) : ℕ :=
  if 0 < millisBetween expiresAt now then (millisBetween expiresAt now).toNat else 1

/-- An approval at a time. -/
def approvedAt (id : ChallengeId) (now : Rfc3339Timestamp) : OobResolution :=
  ⟨id, .approved, some now, none⟩

/-- A denial. -/
def deniedFor (id : ChallengeId) : OobResolution := ⟨id, .denied, none, none⟩

/-- No answer in time. -/
def expiredFor (id : ChallengeId) : OobResolution := ⟨id, .expired, none, none⟩

/-- The resolution that an answer makes. -/
def resolutionOf (id : ChallengeId) (approve : Bool) (now : Rfc3339Timestamp) : OobResolution :=
  if approve then approvedAt id now else deniedFor id

namespace Exchange

variable (clock : ℕ) (id : ChallengeId) (e : Exchange)

/-- A receiver for the challenge. -/
def register : ℕ × Exchange :=
  (e.registration.register.1, { e with registration := e.registration.register.2 })

/-- An answer reaches the receivers. -/
def resolve (res : OobResolution) : Exchange :=
  { e with registration := e.registration.resolve res }

/-- An answer counts when the challenge is presented. -/
def note (res : OobResolution) : Exchange :=
  if e.presented then { e with answers := e.answers ++ [⟨res.outcome, clock⟩] } else e

/-- A line that answers the challenge counts when its prompt is on the terminal. -/
def answer (line : List Char) : Exchange :=
  if e.prompt.shown then { e with answers := e.answers ++ [⟨outcomeOf (firstKey line), clock⟩] } else e

/-- `read_key_from_tty`, and what is made of the key. -/
def readKey (key : Char) (now : Rfc3339Timestamp) : Exchange :=
  { e with prompt := .ended, tty := .sent (resolutionOf id (approves key) now) }

/-- `dispatch` up to where it first waits. -/
def dispatch (expiresAt now : Rfc3339Timestamp) : Channel → Exchange
  | .localhostConfirm =>
    -- The receiver of the registration is dropped.
    { e.register.2 with call := .dispatching }
  | .terminalPrompt true => { e with preResolved := some (deniedFor id), call := .dispatched }
  | .terminalPrompt false =>
    { e with
      prompt := .spawned
      forwarder := .spawned (deadlineDuration expiresAt now)
      call := .dispatched }

/-- `await_resolution` up to where it waits. -/
def awaitResolution (timeout : ℕ) : Exchange :=
  match e.preResolved with
  | some res => { e with preResolved := none, call := .returned (clock + timeout) (.ok res) }
  | none => { e.register.2 with call := .waiting e.register.1 (clock + timeout) }

/-- `tokio::time::timeout` over a receiver: first what was sent, then the deadline. -/
def poll (receiver deadline : ℕ) : Option Exchange :=
  match e.registration.shots[receiver]? with
  | some (.sent res) => some { e with call := .returned deadline (.ok res) }
  | some .pending =>
    if deadline ≤ clock then some { e with call := .returned deadline (.error .timeout) } else none
  | _ => some { e with call := .returned deadline (.error .timeout) }

/-- The same over the key, with what is recorded. -/
def pollForwarder (deadline : ℕ) : Option Exchange :=
  match e.tty with
  | .sent res => some { e.resolve res with forwarder := .ended }
  | .closed => some { e.resolve (deniedFor id) with forwarder := .ended }
  | .pending =>
    if deadline ≤ clock then some { e.resolve (expiredFor id) with forwarder := .ended } else none

/-- What an action does; it cannot be taken everywhere. -/
def act (channel : Channel) : Action → Option Exchange
  | .dispatch expiresAt now => if e.call = .idle then some (e.dispatch id expiresAt now channel) else none
  | .present =>
    if channel = .localhostConfirm ∧ e.call = .dispatching then some { e with presented := true }
    else if e.prompt = .spawned then some { e with presented := true, prompt := .prompted }
    else none
  | .dispatchReturns =>
    if e.call = .dispatching ∧ e.presented then some { e with call := .dispatched } else none
  | .dispatchFails => if e.call = .dispatching then some { e with call := .dispatchFailed } else none
  | .awaitResolution timeout =>
    if e.call = .dispatched then some (e.awaitResolution clock timeout) else none
  | .poll =>
    match e.call with
    | .waiting receiver deadline => e.poll clock receiver deadline
    | _ => none
  | .post approve now =>
    if channel = .localhostConfirm then
      some ((e.note clock (resolutionOf id approve now)).resolve (resolutionOf id approve now))
    else none
  | .readFails =>
    if e.prompt = .prompted then some { e with prompt := .ended, tty := .sent (deniedFor id) } else none
  | .promptDies =>
    if e.prompt = .spawned ∨ e.prompt = .prompted then some { e with prompt := .ended, tty := .closed }
    else none
  | .startForwarder =>
    match e.forwarder with
    | .spawned duration => some { e with forwarder := .watching (clock + duration) }
    | _ => none
  | .pollForwarder =>
    match e.forwarder with
    | .watching deadline => e.pollForwarder clock id deadline
    | _ => none

end Exchange

/-! ### All challenges -/

/-- The clock, every challenge and the terminal that the prompts share. -/
structure State where
  clock : ℕ
  exchanges : ChallengeId → Exchange
  /-- The keys that the terminal has ready, for whoever reads first. -/
  input : List Keystroke

/-- Nothing has happened. -/
def State.start : State := ⟨0, fun _ => Exchange.new, []⟩

/-- The state with one challenge changed. -/
def State.set (s : State) (id : ChallengeId) (e : Exchange) : State :=
  { s with exchanges := Function.update s.exchanges id e }

@[simp] theorem State.set_same (s : State) (id : ChallengeId) (e : Exchange) :
    (s.set id e).exchanges id = e := Function.update_self _ _ _

@[simp] theorem State.set_other (s : State) {id id' : ChallengeId} (e : Exchange) (h : id' ≠ id) :
    (s.set id e).exchanges id' = s.exchanges id' := Function.update_of_ne h _ _

@[simp] theorem State.set_clock (s : State) (id : ChallengeId) (e : Exchange) :
    (s.set id e).clock = s.clock := rfl

/-- The operator ends a line that answers a challenge. -/
def State.typeLine (s : State) (id : ChallengeId) (line : List Char) : State :=
  { s.set id ((s.exchanges id).answer s.clock line) with
    input := s.input ++
      keystrokes (if (s.exchanges id).prompt.shown then some id else none) line }

/-- The prompt of a challenge takes a key; `rest` is what is left of them. -/
def State.readKey (s : State) (id : ChallengeId) (key : Char) (now : Rfc3339Timestamp)
    (rest : List Keystroke) : State :=
  { s.set id ((s.exchanges id).readKey id key now) with input := rest }

/-- Conditions on the steps of a run: on the actions at a challenge, on the lines that answer it, on
the keys that its prompt reads, and on where another takes a key that answers it. -/
structure Timing where
  act : ℕ → Exchange → Action → Prop
  typed : ℕ → Exchange → Prop
  read : ChallengeId → Exchange → Keystroke → Prop
  taken : Exchange → Prop

/-- Time passes, a challenge acts, the operator ends a line, or a key of it is read, by a prompt or by
another process. -/
inductive Step (channel : Channel) (T : Timing) : State → State → Prop
  | tick {s : State} (elapsed : ℕ) : Step channel T s { s with clock := s.clock + elapsed }
  | act {s : State} (id : ChallengeId) (a : Action) (e' : Exchange)
      (h : (s.exchanges id).act s.clock id channel a = some e')
      (ht : T.act s.clock (s.exchanges id) a) : Step channel T s (s.set id e')
  | typeLine {s : State} (id : ChallengeId) (line : List Char) (ht : T.typed s.clock (s.exchanges id)) :
      Step channel T s (s.typeLine id line)
  | readKey {s : State} (id : ChallengeId) (key : Keystroke) (rest : List Keystroke)
      (now : Rfc3339Timestamp) (hprompt : (s.exchanges id).prompt = .prompted)
      (hinput : s.input = key :: rest) (ht : T.read id (s.exchanges id) key)
      (hother : ∀ id', id' ≠ id → key.meant = some id' → T.taken (s.exchanges id')) :
      Step channel T s (s.readKey id key.char now rest)
  /-- Another process reads the terminal. -/
  | taken {s : State} (key : Keystroke) (rest : List Keystroke) (hinput : s.input = key :: rest)
      (ht : ∀ id, key.meant = some id → T.taken (s.exchanges id)) :
      Step channel T s { s with input := rest }

/-- The states that a run gets to. -/
def Reachable (channel : Channel) (T : Timing) : State → Prop :=
  Relation.ReflTransGen (Step channel T) State.start

/-- The keys that answer a challenge and are not read yet. -/
def keysFor (id : ChallengeId) (input : List Keystroke) : List Char :=
  (input.filter fun key => key.meant = some id).map (·.char)

section Keys

variable {id id' : ChallengeId} {key : Keystroke} {rest : List Keystroke}

theorem keysFor_append (l l' : List Keystroke) :
    keysFor id (l ++ l') = keysFor id l ++ keysFor id l' := by
  unfold keysFor
  rw [List.filter_append, List.map_append]

theorem keysFor_own (h : key.meant = some id) :
    keysFor id (key :: rest) = key.char :: keysFor id rest := by
  unfold keysFor
  rw [List.filter_cons_of_pos (by simpa using h)]
  rfl

theorem keysFor_other (h : key.meant ≠ some id) : keysFor id (key :: rest) = keysFor id rest := by
  unfold keysFor
  rw [List.filter_cons_of_neg (by simpa using h)]

theorem keysFor_none (keys : List Char) : keysFor id (keys.map (⟨·, none⟩)) = [] := by
  unfold keysFor
  rw [List.filter_eq_nil_iff.mpr ?_]
  · rfl
  · intro key hkey
    obtain ⟨_, -, rfl⟩ := List.mem_map.mp hkey
    simp

/-- Only the first key of a line answers. -/
theorem keysFor_line (meant : Option ChallengeId) (line : List Char) :
    keysFor id (keystrokes meant line) = if meant = some id then [firstKey line] else [] := by
  unfold keystrokes
  split_ifs with h
  · rw [keysFor_own h, keysFor_none]
  · rw [keysFor_other h, keysFor_none]

end Keys

/-- **Invariants of one challenge and its keys** over all interleavings: kept by what is done at the
challenge, by the lines that answer it, by its prompt, whosever key that reads, and when another takes
a key of it. -/
theorem Reachable.inv {channel : Channel} {T : Timing} {s : State}
    (I : ℕ → ChallengeId → List Char → Exchange → Prop)
    (hnew : ∀ id, I 0 id [] Exchange.new)
    (htick : ∀ clock elapsed id keys e, I clock id keys e → I (clock + elapsed) id keys e)
    (hact : ∀ clock id keys e a e', I clock id keys e → e.act clock id channel a = some e' →
      T.act clock e a → I clock id keys e')
    (htype : ∀ clock id keys e line, I clock id keys e → T.typed clock e →
      I clock id (keys ++ if e.prompt.shown then [firstKey line] else []) (e.answer clock line))
    (hread : ∀ clock id keys e key now rest, I clock id keys e → e.prompt = .prompted →
      T.read id e key → (key.meant = some id → keys = key.char :: rest) →
      (key.meant ≠ some id → rest = keys) → I clock id rest (e.readKey id key.char now))
    (htaken : ∀ clock id key rest e, I clock id (key :: rest) e → T.taken e → I clock id rest e)
    (h : Reachable channel T s) : ∀ id, I s.clock id (keysFor id s.input) (s.exchanges id) := by
  induction h with
  | refl => exact hnew
  | @tail s s' _ hstep ih =>
    intro id
    have hid := ih id
    cases hstep with
    | tick elapsed => exact htick _ elapsed id _ _ hid
    | act id' a e' h ht =>
      by_cases heq : id = id'
      · subst heq
        rw [State.set_same, State.set_clock]
        exact hact _ _ _ _ a _ hid h ht
      · rw [State.set_other _ _ heq, State.set_clock]
        exact hid
    | typeLine id' line ht =>
      show I s.clock id (keysFor id (s.input ++ _)) ((s.set id' _).exchanges id)
      rw [keysFor_append, keysFor_line]
      by_cases heq : id = id'
      · subst heq
        rw [State.set_same]
        have hkeys := htype _ _ _ _ line hid ht
        cases hshown : (s.exchanges id).prompt.shown with
        | true => simpa [hshown] using hkeys
        | false => simpa [hshown] using hkeys
      · have hother : ¬(if (s.exchanges id').prompt.shown then some id' else none) = some id := by
          split_ifs
          · exact fun h => heq (Option.some.inj h).symm
          · exact fun h => nomatch h
        rw [State.set_other _ _ heq, if_neg hother, List.append_nil]
        exact hid
    | readKey id' key rest now hprompt hinput ht hother =>
      show I s.clock id (keysFor id rest) ((s.set id' _).exchanges id)
      rw [hinput] at hid
      by_cases heq : id = id'
      · subst heq
        rw [State.set_same]
        exact hread _ _ _ _ key now _ hid hprompt ht (fun hown => keysFor_own hown)
          fun hother => (keysFor_other hother).symm
      · rw [State.set_other _ _ heq]
        by_cases hown : key.meant = some id
        · rw [keysFor_own hown] at hid
          exact htaken _ _ _ _ _ hid (hother id heq hown)
        · rw [keysFor_other hown] at hid
          exact hid
    | taken key rest hinput ht =>
      show I s.clock id (keysFor id rest) (s.exchanges id)
      rw [hinput] at hid
      by_cases hown : key.meant = some id
      · rw [keysFor_own hown] at hid
        exact htaken _ _ _ _ _ hid (ht id hown)
      · rw [keysFor_other hown] at hid
        exact hid

/-! ### The actions one by one -/

/-- Where each action can be taken, and what it does. -/
inductive Acts (channel : Channel) (clock : ℕ) (id : ChallengeId) (e : Exchange) : Action → Exchange → Prop
  | dispatch (expiresAt now : Rfc3339Timestamp) (hcall : e.call = .idle) :
      Acts channel clock id e (.dispatch expiresAt now) (e.dispatch id expiresAt now channel)
  | openPage (hch : channel = .localhostConfirm) (hcall : e.call = .dispatching) :
      Acts channel clock id e .present { e with presented := true }
  | writePrompt (hprompt : e.prompt = .spawned) :
      Acts channel clock id e .present { e with presented := true, prompt := .prompted }
  | dispatchReturns (hcall : e.call = .dispatching) (hp : e.presented = true) :
      Acts channel clock id e .dispatchReturns { e with call := .dispatched }
  | dispatchFails (hcall : e.call = .dispatching) :
      Acts channel clock id e .dispatchFails { e with call := .dispatchFailed }
  | awaitResolution (timeout : ℕ) (hcall : e.call = .dispatched) :
      Acts channel clock id e (.awaitResolution timeout) (e.awaitResolution clock timeout)
  | poll (receiver deadline : ℕ) (e' : Exchange) (hcall : e.call = .waiting receiver deadline)
      (h : e.poll clock receiver deadline = some e') : Acts channel clock id e .poll e'
  | post (approve : Bool) (now : Rfc3339Timestamp) (hch : channel = .localhostConfirm) :
      Acts channel clock id e (.post approve now)
        ((e.note clock (resolutionOf id approve now)).resolve (resolutionOf id approve now))
  | readFails (hprompt : e.prompt = .prompted) :
      Acts channel clock id e .readFails { e with prompt := .ended, tty := .sent (deniedFor id) }
  | promptDies (hprompt : e.prompt = .spawned ∨ e.prompt = .prompted) :
      Acts channel clock id e .promptDies { e with prompt := .ended, tty := .closed }
  | startForwarder (duration : ℕ) (h : e.forwarder = .spawned duration) :
      Acts channel clock id e .startForwarder { e with forwarder := .watching (clock + duration) }
  | pollForwarder (deadline : ℕ) (e' : Exchange) (hf : e.forwarder = .watching deadline)
      (h : e.pollForwarder clock id deadline = some e') : Acts channel clock id e .pollForwarder e'

theorem acts_of_act {channel : Channel} {clock : ℕ} {id : ChallengeId} {e e' : Exchange} {a : Action}
    (hx : e.act clock id channel a = some e') : Acts channel clock id e a e' := by
  cases a with
  | dispatch expiresAt now =>
    simp only [Exchange.act] at hx
    split_ifs at hx with hcall
    obtain rfl := Option.some.inj hx
    exact .dispatch expiresAt now hcall
  | present =>
    simp only [Exchange.act] at hx
    split_ifs at hx with hlocal hprompt
    · obtain rfl := Option.some.inj hx
      exact .openPage hlocal.1 hlocal.2
    · obtain rfl := Option.some.inj hx
      exact .writePrompt hprompt
  | dispatchReturns =>
    simp only [Exchange.act] at hx
    split_ifs at hx with hcall
    obtain rfl := Option.some.inj hx
    exact .dispatchReturns hcall.1 hcall.2
  | dispatchFails =>
    simp only [Exchange.act] at hx
    split_ifs at hx with hcall
    obtain rfl := Option.some.inj hx
    exact .dispatchFails hcall
  | awaitResolution timeout =>
    simp only [Exchange.act] at hx
    split_ifs at hx with hcall
    obtain rfl := Option.some.inj hx
    exact .awaitResolution timeout hcall
  | poll =>
    simp only [Exchange.act] at hx
    split at hx
    · next receiver deadline hcall => exact .poll receiver deadline e' hcall hx
    · cases hx
  | post approve now =>
    simp only [Exchange.act] at hx
    split_ifs at hx with hch
    obtain rfl := Option.some.inj hx
    exact .post approve now hch
  | readFails =>
    simp only [Exchange.act] at hx
    split_ifs at hx with hprompt
    obtain rfl := Option.some.inj hx
    exact .readFails hprompt
  | promptDies =>
    simp only [Exchange.act] at hx
    split_ifs at hx with hprompt
    obtain rfl := Option.some.inj hx
    exact .promptDies hprompt
  | startForwarder =>
    simp only [Exchange.act] at hx
    split at hx
    · next duration hf =>
      obtain rfl := Option.some.inj hx
      exact .startForwarder duration hf
    · cases hx
  | pollForwarder =>
    simp only [Exchange.act] at hx
    split at hx
    · next deadline hf => exact .pollForwarder deadline e' hf hx
    · cases hx

/-! ### What is promised -/

namespace Exchange

variable (e : Exchange)

/-- The call returns the first answer that the operator gave, when that was before its deadline. -/
def Delivered : Prop :=
  ∀ deadline result a, e.call = .returned deadline result → e.answers.head? = some a →
    a.time < deadline → ∃ res, result = .ok res ∧ res.outcome = a.outcome

/-- The operator approved. -/
def Approved : Prop := ∃ a ∈ e.answers, a.outcome = .approved

/-- An approval that the call returns was given by the operator. -/
def Unforged : Prop :=
  ∀ deadline res, e.call = .returned deadline (.ok res) → res.outcome = .approved → e.Approved

end Exchange

/-! ### Approvals are not made up -/

/-- An approval, if it is one, was given by the operator. -/
def Honest (e : Exchange) (res : OobResolution) : Prop := res.outcome = .approved → e.Approved

/-- The sender that is entered is that of the call that waits, and everything on its way is honest. -/
structure Faithful (channel : Channel) (e : Exchange) : Prop where
  sender : ∀ receiver deadline, e.call = .waiting receiver deadline →
    e.registration.sender = none ∨ e.registration.sender = some receiver
  waiting : ∀ receiver deadline res, e.call = .waiting receiver deadline →
    e.registration.shots[receiver]? = some (.sent res) → Honest e res
  returned : ∀ deadline res, e.call = .returned deadline (.ok res) → Honest e res
  tty : ∀ res, e.tty = .sent res → Honest e res
  preResolved : ∀ res, e.preResolved = some res → Honest e res
  presented : channel = .localhostConfirm → e.call ≠ .idle → e.call ≠ .dispatching →
    e.call ≠ .dispatchFailed → e.presented = true
  prompt : channel = .localhostConfirm → e.prompt = .none

section Faithful

variable {channel : Channel} {clock : ℕ} {id : ChallengeId} {e e' : Exchange}

theorem faithful_new (channel : Channel) : Faithful channel Exchange.new := by
  constructor <;> simp [Exchange.new]

theorem honest_of_ne {res : OobResolution} (h : res.outcome ≠ .approved) : Honest e res :=
  fun happroved => absurd happroved h

theorem honest_denied (id : ChallengeId) : Honest e (deniedFor id) := honest_of_ne (by simp [deniedFor])

theorem honest_expired (id : ChallengeId) : Honest e (expiredFor id) := honest_of_ne (by simp [expiredFor])

/-- What was sent is honest once more answers are given. -/
theorem Honest.mono {res : OobResolution} (h : Honest e res) (hsub : e.answers ⊆ e'.answers) :
    Honest e' res := by
  intro happroved
  obtain ⟨a, ha, hout⟩ := h happroved
  exact ⟨a, hsub ha, hout⟩

/-- A note changes the answers only. -/
theorem note_eq (e : Exchange) (clock : ℕ) (res : OobResolution) :
    e.note clock res = { e with answers := (e.note clock res).answers } := by
  unfold Exchange.note
  split_ifs <;> rfl

theorem note_call (e : Exchange) (clock : ℕ) (res : OobResolution) :
    (e.note clock res).call = e.call := by
  rw [note_eq]

theorem note_answers (hp : e.presented = true) (clock : ℕ) (res : OobResolution) :
    (e.note clock res).answers = e.answers ++ [⟨res.outcome, clock⟩] := by
  unfold Exchange.note
  rw [if_pos hp]

theorem note_unpresented (hp : e.presented = false) (clock : ℕ) (res : OobResolution) :
    e.note clock res = e := by
  unfold Exchange.note
  rw [if_neg (by simp [hp])]

/-- What a receiver finds after a resolution: what was there, or the resolution. -/
theorem shots_resolve {g : Registration} {receiver : ℕ} {res res' : OobResolution}
    (h : (g.resolve res).shots[receiver]? = some (.sent res')) :
    res' = res ∨ g.shots[receiver]? = some (.sent res') := by
  unfold Registration.resolve at h
  split at h
  · next sender hs =>
    rw [List.getElem?_set] at h
    split_ifs at h with hk hlt
    · simp only [Option.some.injEq, OneShot.sent.injEq] at h
      exact .inl h.symm
    · exact .inr h
  · exact .inr h

theorem sender_resolve {g : Registration} (res : OobResolution) : (g.resolve res).sender = none := by
  unfold Registration.resolve
  split
  · rfl
  · next h => exact h

theorem Faithful.resolve (h : Faithful channel e) {res : OobResolution}
    (hres : ∀ receiver deadline, e.call = .waiting receiver deadline → Honest e res) :
    Faithful channel (e.resolve res) where
  sender _ _ _ := .inl (sender_resolve res)
  waiting receiver deadline res' hcall hshot := by
    rcases shots_resolve hshot with rfl | hold
    · exact hres receiver deadline hcall
    · exact h.waiting receiver deadline res' hcall hold
  returned := h.returned
  tty := h.tty
  preResolved := h.preResolved
  presented := h.presented
  prompt := h.prompt

/-- An answer is noted before it goes its way. -/
theorem Faithful.note (h : Faithful channel e) (clock : ℕ) (res : OobResolution) :
    Faithful channel (e.note clock res) := by
  unfold Exchange.note
  split_ifs with hp
  · have hsub : e.answers ⊆ e.answers ++ [⟨res.outcome, clock⟩] := List.subset_append_left _ _
    exact ⟨h.sender, fun r d res' hc hs => (h.waiting r d res' hc hs).mono hsub,
      fun d res' hc => (h.returned d res' hc).mono hsub, fun res' ht => (h.tty res' ht).mono hsub,
      fun res' hr => (h.preResolved res' hr).mono hsub, h.presented, h.prompt⟩
  · exact h

theorem honest_note (hp : e.presented = true) (clock : ℕ) (res : OobResolution) :
    Honest (e.note clock res) res := by
  intro happroved
  unfold Exchange.Approved
  rw [note_answers hp]
  exact ⟨⟨res.outcome, clock⟩, by simp, happroved⟩

theorem Faithful.post (h : Faithful channel e) (hch : channel = .localhostConfirm) (clock : ℕ)
    (res : OobResolution) : Faithful channel ((e.note clock res).resolve res) := by
  refine (h.note clock res).resolve fun receiver deadline hcall => ?_
  rw [note_call] at hcall
  refine honest_note (h.presented hch ?_ ?_ ?_) clock res
  · simp [hcall]
  · simp [hcall]
  · simp [hcall]

theorem register_receiver (g : Registration) :
    g.register.2.sender = some g.register.1 ∧ g.register.2.shots[g.register.1]? = some .pending := by
  simp [Registration.register]

theorem Faithful.awaitResolution (h : Faithful channel e) (hcall : e.call = .dispatched)
    (clock timeout : ℕ) :
    Faithful channel (e.awaitResolution clock timeout) := by
  have hpresented : channel = .localhostConfirm → e.presented = true := fun hch =>
    h.presented hch (by simp [hcall]) (by simp [hcall]) (by simp [hcall])
  unfold Exchange.awaitResolution
  cases hpre : e.preResolved with
  | some res =>
    refine ⟨by simp, by simp, ?_, h.tty, by simp, fun hch _ _ _ => hpresented hch, h.prompt⟩
    intro deadline res' hc
    simp only [Call.returned.injEq, Except.ok.injEq] at hc
    rw [← hc.2]
    exact h.preResolved res hpre
  | none =>
    obtain ⟨hsender, hshot⟩ := register_receiver e.registration
    refine ⟨?_, ?_, by simp, h.tty, ?_, fun hch _ _ _ => hpresented hch, h.prompt⟩
    · intro receiver deadline hc
      simp only [Call.waiting.injEq] at hc
      rw [← hc.1]
      exact .inr hsender
    · intro receiver deadline res hc hs
      simp only [Call.waiting.injEq] at hc
      rw [← hc.1] at hs
      rw [show ({ e.register.2 with call := .waiting e.register.1 (clock + timeout) } :
        Exchange).registration.shots = e.registration.register.2.shots from rfl] at hs
      rw [show e.register.1 = e.registration.register.1 from rfl, hshot] at hs
      cases hs
    · intro res hr
      exact h.preResolved res hr

theorem Faithful.poll (h : Faithful channel e) {receiver deadline : ℕ}
    (hcall : e.call = .waiting receiver deadline) (clock : ℕ)
    (hx : e.poll clock receiver deadline = some e') : Faithful channel e' := by
  have hpresented : channel = .localhostConfirm → e.presented = true := fun hch =>
    h.presented hch (by simp [hcall]) (by simp [hcall]) (by simp [hcall])
  have hreturned : ∀ result, (∀ res, result = .ok res → Honest e res) →
      Faithful channel { e with call := .returned deadline result } := by
    intro result hresult
    refine ⟨by simp, by simp, ?_, h.tty, h.preResolved, fun hch _ _ _ => hpresented hch, h.prompt⟩
    intro deadline' res hc
    simp only [Call.returned.injEq] at hc
    exact hresult res hc.2
  unfold Exchange.poll at hx
  split at hx
  · next res hshot =>
    obtain rfl := Option.some.inj hx
    refine hreturned _ fun res' hr => ?_
    rw [← Except.ok.inj hr]
    exact h.waiting receiver deadline res hcall hshot
  · split_ifs at hx
    obtain rfl := Option.some.inj hx
    exact hreturned _ (by simp)
  · obtain rfl := Option.some.inj hx
    exact hreturned _ (by simp)

theorem Faithful.pollForwarder (h : Faithful channel e) {deadline : ℕ} (clock : ℕ) (id : ChallengeId)
    (hx : e.pollForwarder clock id deadline = some e') : Faithful channel e' := by
  have hended : ∀ res, Honest e res → Faithful channel { e.resolve res with forwarder := .ended } := by
    intro res hres
    have hr := h.resolve fun _ _ _ => hres
    exact ⟨hr.sender, hr.waiting, hr.returned, hr.tty, hr.preResolved, hr.presented, hr.prompt⟩
  unfold Exchange.pollForwarder at hx
  split at hx
  · next res htty =>
    obtain rfl := Option.some.inj hx
    exact hended res (h.tty res htty)
  · obtain rfl := Option.some.inj hx
    exact hended _ (honest_denied id)
  · split_ifs at hx
    obtain rfl := Option.some.inj hx
    exact hended _ (honest_expired id)

theorem Faithful.dispatch (h : Faithful channel e) (id : ChallengeId)
    (expiresAt now : Rfc3339Timestamp) : Faithful channel (e.dispatch id expiresAt now channel) := by
  cases channel with
  | localhostConfirm =>
    exact ⟨by simp [Exchange.dispatch], by simp [Exchange.dispatch], by simp [Exchange.dispatch], h.tty,
      h.preResolved, fun _ _ hne => absurd rfl hne, h.prompt⟩
  | terminalPrompt autoDeny =>
    cases autoDeny with
    | true =>
      refine ⟨by simp [Exchange.dispatch], by simp [Exchange.dispatch], by simp [Exchange.dispatch],
        h.tty, ?_, by simp, h.prompt⟩
      intro res hr
      rw [← Option.some.inj hr]
      exact honest_denied id
    | false =>
      exact ⟨by simp [Exchange.dispatch], by simp [Exchange.dispatch], by simp [Exchange.dispatch],
        h.tty, h.preResolved, by simp, by simp [Exchange.dispatch]⟩

/-- Answers are not taken back. -/
theorem answers_act {a : Action} (hx : Acts channel clock id e a e') : e.answers ⊆ e'.answers := by
  cases hx with
  | dispatch expiresAt now hcall =>
    unfold Exchange.dispatch
    split <;> exact List.Subset.refl _
  | awaitResolution timeout hcall =>
    unfold Exchange.awaitResolution
    split <;> exact List.Subset.refl _
  | poll receiver deadline _ hcall h =>
    unfold Exchange.poll at h
    split at h
    · rw [← Option.some.inj h]
      exact List.Subset.refl _
    · split_ifs at h
      rw [← Option.some.inj h]
      exact List.Subset.refl _
    · rw [← Option.some.inj h]
      exact List.Subset.refl _
  | post approve now hch =>
    show e.answers ⊆ (e.note clock _).answers
    unfold Exchange.note
    split_ifs
    · exact List.subset_append_left _ _
    · exact List.Subset.refl _
  | pollForwarder deadline _ hf h =>
    unfold Exchange.pollForwarder at h
    split at h
    · rw [← Option.some.inj h]
      exact List.Subset.refl _
    · rw [← Option.some.inj h]
      exact List.Subset.refl _
    · split_ifs at h
      rw [← Option.some.inj h]
      exact List.Subset.refl _
  | _ => exact List.Subset.refl _

/-- Where a prompt is, there is no page. -/
theorem Faithful.terminal (h : Faithful channel e) (hprompt : e.prompt ≠ .none) :
    channel ≠ .localhostConfirm := fun hch => hprompt (h.prompt hch)

/-- The prompt ends over something honest. -/
theorem Faithful.ends (h : Faithful channel e) (hprompt : e.prompt ≠ .none) (tty : OneShot)
    (htty : ∀ res, tty = .sent res → Honest e res) :
    Faithful channel { e with prompt := .ended, tty := tty } :=
  ⟨h.sender, h.waiting, h.returned, htty, h.preResolved, h.presented,
    fun hch => absurd hch (h.terminal hprompt)⟩

/-- Every action keeps it. -/
theorem Faithful.act (h : Faithful channel e) {a : Action} (hx : Acts channel clock id e a e') :
    Faithful channel e' := by
  cases hx with
  | dispatch expiresAt now hcall => exact h.dispatch id expiresAt now
  | openPage hch hcall =>
    exact ⟨h.sender, h.waiting, h.returned, h.tty, h.preResolved, fun _ _ _ _ => rfl, h.prompt⟩
  | writePrompt hprompt =>
    have hch := h.terminal (by simp [hprompt])
    exact ⟨h.sender, h.waiting, h.returned, h.tty, h.preResolved, fun _ _ _ _ => rfl,
      fun hpage => absurd hpage hch⟩
  | dispatchReturns hcall hp =>
    exact ⟨by simp, by simp, by simp, h.tty, h.preResolved, fun _ _ _ _ => hp, h.prompt⟩
  | dispatchFails hcall =>
    exact ⟨by simp, by simp, by simp, h.tty, h.preResolved, fun _ _ _ hne => absurd rfl hne, h.prompt⟩
  | awaitResolution timeout hcall => exact h.awaitResolution hcall clock timeout
  | poll receiver deadline _ hcall hx => exact h.poll hcall clock hx
  | post approve now hch => exact h.post hch clock _
  | readFails hprompt =>
    refine h.ends (by simp [hprompt]) _ fun res hr => ?_
    rw [← OneShot.sent.inj hr]
    exact honest_denied id
  | promptDies hprompt =>
    refine h.ends ?_ _ (by simp)
    rcases hprompt with hprompt | hprompt
    · simp [hprompt]
    · simp [hprompt]
  | startForwarder duration hf =>
    exact ⟨h.sender, h.waiting, h.returned, h.tty, h.preResolved, h.presented, h.prompt⟩
  | pollForwarder deadline _ hf hx => exact h.pollForwarder clock id hx

theorem approved_resolutionOf {id : ChallengeId} {approve : Bool} {now : Rfc3339Timestamp}
    (h : (resolutionOf id approve now).outcome = .approved) : approve = true := by
  cases approve with
  | true => rfl
  | false => cases h

/-- The answers grow, and nothing else changes. -/
theorem Faithful.answered (h : Faithful channel e) {answers : List Answer} (hsub : e.answers ⊆ answers) :
    Faithful channel { e with answers := answers } :=
  ⟨h.sender, fun r d res hc hs => (h.waiting r d res hc hs).mono hsub,
    fun d res hc => (h.returned d res hc).mono hsub, fun res ht => (h.tty res ht).mono hsub,
    fun res hr => (h.preResolved res hr).mono hsub, h.presented, h.prompt⟩

/-- What is on its way is honest, and so are the keys that answer the challenge. -/
structure Vouched (channel : Channel) (keys : List Char) (e : Exchange) : Prop where
  faithful : Faithful channel e
  keys : ∀ key ∈ keys, approves key = true → e.Approved

/-- A line that answers is an answer, whoever reads it. -/
theorem Vouched.answer {keys : List Char} (h : Vouched channel keys e) (clock : ℕ) (line : List Char) :
    Vouched channel (keys ++ if e.prompt.shown then [firstKey line] else []) (e.answer clock line) := by
  unfold Exchange.answer
  cases hshown : e.prompt.shown with
  | false =>
    rw [if_neg (by simp), if_neg (by simp), List.append_nil]
    exact h
  | true =>
    rw [if_pos rfl, if_pos rfl]
    refine ⟨h.faithful.answered (List.subset_append_left _ _), fun key hkey happroves => ?_⟩
    rcases List.mem_append.mp hkey with hold | hnew
    · obtain ⟨a, ha, hout⟩ := h.keys key hold happroves
      exact ⟨a, List.mem_append_left _ ha, hout⟩
    · rw [List.mem_singleton] at hnew
      refine ⟨⟨outcomeOf (firstKey line), clock⟩, by simp, ?_⟩
      rw [← hnew]
      exact if_pos happroves

end Faithful

/-- The keys that approve are read by the prompts of the challenges that they answer. -/
def OwnApprovals (T : Timing) : Prop :=
  ∀ id e key, T.read id e key → approves key.char = true → key.meant = some id

/-- **The call returns an approval only when the operator approved**: on the page in every run, and on
the terminal where no prompt takes an approval that is not its own. -/
theorem reachable_unforged {channel : Channel} {T : Timing} {s : State}
    (hown : channel = .localhostConfirm ∨ OwnApprovals T) (h : Reachable channel T s)
    (id : ChallengeId) : (s.exchanges id).Unforged := by
  have hvouched : Vouched channel (keysFor id s.input) (s.exchanges id) := by
    refine h.inv (fun _ _ keys e => Vouched channel keys e) ?_ ?_ ?_ ?_ ?_ ?_ id
    · exact fun _ => ⟨faithful_new channel, by simp⟩
    · exact fun _ _ _ _ _ h => h
    · intro clock id keys e a e' h hx _
      have hacts := acts_of_act hx
      refine ⟨h.faithful.act hacts, fun key hkey happroves => ?_⟩
      obtain ⟨a, ha, hout⟩ := h.keys key hkey happroves
      exact ⟨a, answers_act hacts ha, hout⟩
    · exact fun clock id keys e line h _ => h.answer clock line
    · intro clock id keys e key now rest h hprompt hread hkeys hrest
      have hterminal := h.faithful.terminal (by simp [hprompt])
      have hkey : approves key.char = true → e.Approved := by
        intro happroves
        have hmeant := hown.resolve_left hterminal id e key hread happroves
        exact h.keys key.char (by simp [hkeys hmeant]) happroves
      refine ⟨h.faithful.ends (by simp [hprompt]) _ fun res hres => ?_, fun c hc happroves => ?_⟩
      · rw [← OneShot.sent.inj hres]
        exact fun happroved => hkey (approved_resolutionOf happroved)
      · refine h.keys c ?_ happroves
        by_cases hmeant : key.meant = some id
        · rw [hkeys hmeant]
          exact List.mem_cons_of_mem _ hc
        · rw [← hrest hmeant]
          exact hc
    · exact fun clock id key rest e h _ =>
        ⟨h.faithful, fun c hc => h.keys c (List.mem_cons_of_mem _ hc)⟩
  exact hvouched.faithful.returned

/-! ### Answers in time -/

/-- The call is entered in the registry, or has ended. -/
def Call.entered : Call → Bool
  | .waiting _ _ => true
  | .returned _ _ => true
  | .dispatchFailed => true
  | _ => false

/-- The deadline of the call has passed, or it has returned. -/
def Call.overdue (clock : ℕ) : Call → Prop
  | .waiting _ deadline => deadline ≤ clock
  | .returned _ _ => True
  | _ => False

/-- When the wait ends, of a wait that has begun. -/
def Call.deadline? : Call → Option ℕ
  | .waiting _ deadline => some deadline
  | .returned deadline _ => some deadline
  | _ => none

/-- The operator gave an answer, which is not too late for the call. -/
def Exchange.Owed (e : Exchange) : Prop :=
  ∃ a, e.answers.head? = some a ∧ ∀ deadline, e.call.deadline? = some deadline → a.time < deadline

/-- Answers on the page are recorded after the call is entered.  On the terminal, the watchdog does not
fire before the call is entered and overdue; while an answer is owed it does not fire, the call does not
time out before the forwarder has ended, the prompt reads no other key and does not fail, and nobody
takes the key; a line is not typed in time as the first answer to a prompt that has ended; and no prompt
takes an approval of another challenge. -/
def Timely : Timing where
  act clock e a := match a with
    | .post _ _ => e.presented = true → e.call.entered = true
    | .pollForwarder => e.call.entered = true ∧ (e.tty = .pending → e.call.overdue clock ∧ ¬e.Owed)
    | .poll => e.Owed → e.prompt ≠ .none → e.forwarder = .ended
    | .readFails => ¬e.Owed
    | .promptDies => ¬e.Owed
    | _ => True
  typed clock e := e.prompt = .ended → e.answers = [] →
    ∃ deadline, e.call.deadline? = some deadline ∧ deadline ≤ clock
  read id e key := key.meant = some id ∨ ¬e.Owed ∧ approves key.char = false
  taken e := e.prompt = .prompted → ¬e.Owed

/-- The result is the answer, when that was given before the deadline. -/
def Agrees (a : Answer) (deadline : ℕ) (result : Except OobError OobResolution) : Prop :=
  a.time < deadline → ∃ res, result = .ok res ∧ res.outcome = a.outcome

/-- The call at the page: before it is entered nothing is answered, and then the first answer is what
it finds. -/
def PageCall (clock : ℕ) (e : Exchange) : Call → Prop
  | .idle => e.presented = false ∧ e.answers = []
  | .dispatching => e.answers = []
  | .dispatchFailed => True
  | .dispatched => e.presented = true ∧ e.answers = []
  | .waiting receiver _ => e.presented = true ∧
    (e.answers = [] ∧ e.registration.sender = some receiver ∧
        e.registration.shots[receiver]? = some .pending ∨
      ∃ a res, e.answers.head? = some a ∧ e.registration.sender = none ∧
        e.registration.shots[receiver]? = some (.sent res) ∧ res.outcome = a.outcome)
  | .returned deadline result => e.presented = true ∧
    (e.answers = [] ∧ deadline ≤ clock ∨ ∃ a, e.answers.head? = some a ∧ Agrees a deadline result)

/-- What holds of a challenge that is answered on the page. -/
structure PageInv (clock : ℕ) (e : Exchange) : Prop where
  preResolved : e.preResolved = none
  prompt : e.prompt = .none
  tty : e.tty = .pending
  forwarder : e.forwarder = .none
  call : PageCall clock e e.call

section Page

variable {clock : ℕ} {id : ChallengeId} {e e' : Exchange}

theorem pageInv_new : PageInv 0 Exchange.new := ⟨rfl, rfl, rfl, rfl, rfl, rfl⟩

theorem PageCall.tick {call : Call} (h : PageCall clock e call) (elapsed : ℕ) :
    PageCall (clock + elapsed) e call := by
  cases call with
  | returned deadline result =>
    refine ⟨h.1, h.2.imp_left fun hnone => ⟨hnone.1, ?_⟩⟩
    have := hnone.2
    omega
  | _ => exact h

theorem PageInv.tick (h : PageInv clock e) (elapsed : ℕ) : PageInv (clock + elapsed) e :=
  ⟨h.preResolved, h.prompt, h.tty, h.forwarder, h.call.tick elapsed⟩

/-- The first answer does not change. -/
theorem head?_append {a : Answer} {l l' : List Answer} (h : l.head? = some a) :
    (l ++ l').head? = some a := by
  cases l with
  | nil => cases h
  | cons b l => exact h

/-- What the receiver that is entered finds after a resolution. -/
theorem resolve_sender {g : Registration} {receiver : ℕ} {shot : OneShot} (res : OobResolution)
    (hsender : g.sender = some receiver) (hshot : g.shots[receiver]? = some shot) :
    (g.resolve res).shots[receiver]? = some (.sent res) := by
  have hlt : receiver < g.shots.length := (List.getElem?_eq_some_iff.mp hshot).1
  unfold Registration.resolve
  rw [hsender]
  show (g.shots.set receiver (.sent res))[receiver]? = _
  rw [List.getElem?_set_self hlt]

theorem resolve_of_none {g : Registration} (res : OobResolution) (h : g.sender = none) :
    g.resolve res = g := by
  unfold Registration.resolve
  rw [h]

theorem agrees_late (res : OobResolution) {deadline : ℕ} {result : Except OobError OobResolution}
    (h : deadline ≤ clock) : Agrees ⟨res.outcome, clock⟩ deadline result :=
  fun hlt => absurd hlt (by show ¬ clock < deadline; omega)

/-- A request before the page is open is not an answer. -/
theorem PageCall.stray {call : Call} (h : PageCall clock e call) (hp : e.presented = false)
    (g : Registration) : PageCall clock { e with registration := g } call := by
  cases call with
  | idle => exact h
  | dispatching => exact h
  | dispatchFailed => exact h
  | dispatched => exact h
  | waiting receiver deadline => exact absurd h.1 (by simp [hp])
  | returned deadline result => exact h

theorem PageCall.answer {call : Call} (h : PageCall clock e call) (hp : e.presented = true)
    (hentered : call.entered = true) (res : OobResolution) :
    PageCall clock { e with
      registration := e.registration.resolve res
      answers := e.answers ++ [⟨res.outcome, clock⟩] } call := by
  cases call with
  | idle => cases hentered
  | dispatching => cases hentered
  | dispatchFailed => trivial
  | dispatched => cases hentered
  | waiting receiver deadline =>
    refine ⟨hp, .inr ?_⟩
    obtain ⟨-, ⟨hnone, hsender, hshot⟩ | ⟨a, res', ha, hsender, hshot, hout⟩⟩ := h
    · rw [hnone]
      exact ⟨_, res, rfl, sender_resolve res, resolve_sender res hsender hshot, rfl⟩
    · refine ⟨a, res', head?_append ha, sender_resolve res, ?_, hout⟩
      rw [resolve_of_none res hsender]
      exact hshot
  | returned deadline result =>
    refine ⟨hp, .inr ?_⟩
    obtain ⟨-, ⟨hnone, hlate⟩ | ⟨a, ha, hagrees⟩⟩ := h
    · rw [hnone]
      exact ⟨_, rfl, agrees_late res hlate⟩
    · exact ⟨a, head?_append ha, hagrees⟩

theorem PageInv.post (h : PageInv clock e) (res : OobResolution)
    (htimely : e.presented = true → e.call.entered = true) :
    PageInv clock ((e.note clock res).resolve res) := by
  by_cases hp : e.presented = true
  · unfold Exchange.note
    rw [if_pos hp]
    exact ⟨h.preResolved, h.prompt, h.tty, h.forwarder, h.call.answer hp (htimely hp) res⟩
  · have hp' : e.presented = false := by simpa using hp
    rw [note_unpresented hp']
    exact ⟨h.preResolved, h.prompt, h.tty, h.forwarder, h.call.stray hp' _⟩

theorem PageInv.awaitResolution (h : PageInv clock e) (hcall : e.call = .dispatched) (timeout : ℕ) :
    PageInv clock (e.awaitResolution clock timeout) := by
  have hbefore := h.call
  rw [hcall] at hbefore
  unfold Exchange.awaitResolution
  rw [h.preResolved]
  obtain ⟨hsender, hshot⟩ := register_receiver e.registration
  exact ⟨h.preResolved, h.prompt, h.tty, h.forwarder, hbefore.1, .inl ⟨hbefore.2, hsender, hshot⟩⟩

theorem PageInv.poll (h : PageInv clock e) {receiver deadline : ℕ}
    (hcall : e.call = .waiting receiver deadline) (hx : e.poll clock receiver deadline = some e') :
    PageInv clock e' := by
  have hbefore := h.call
  rw [hcall] at hbefore
  obtain ⟨hp, ⟨hnone, hsender, hshot⟩ | ⟨a, res, ha, hsender, hshot, hout⟩⟩ := hbefore
  · unfold Exchange.poll at hx
    simp only [hshot] at hx
    split_ifs at hx with hlate
    obtain rfl := Option.some.inj hx
    exact ⟨h.preResolved, h.prompt, h.tty, h.forwarder, hp, .inl ⟨hnone, hlate⟩⟩
  · unfold Exchange.poll at hx
    simp only [hshot] at hx
    obtain rfl := Option.some.inj hx
    exact ⟨h.preResolved, h.prompt, h.tty, h.forwarder, hp, .inr ⟨a, ha, fun _ => ⟨res, rfl, hout⟩⟩⟩

/-- Every action in time keeps it. -/
theorem PageInv.act (h : PageInv clock e) {a : Action} (hx : Acts .localhostConfirm clock id e a e')
    (htimely : Timely.act clock e a) : PageInv clock e' := by
  have hcall := h.call
  cases hx with
  | dispatch expiresAt now hidle =>
    rw [hidle] at hcall
    exact ⟨h.preResolved, h.prompt, h.tty, h.forwarder, hcall.2⟩
  | openPage hch hdispatching =>
    refine ⟨h.preResolved, h.prompt, h.tty, h.forwarder, ?_⟩
    rw [hdispatching] at hcall
    show PageCall clock _ e.call
    rw [hdispatching]
    exact hcall
  | writePrompt hprompt => cases h.prompt.symm.trans hprompt
  | dispatchReturns hdispatching hp =>
    rw [hdispatching] at hcall
    exact ⟨h.preResolved, h.prompt, h.tty, h.forwarder, hp, hcall⟩
  | dispatchFails => exact ⟨h.preResolved, h.prompt, h.tty, h.forwarder, trivial⟩
  | awaitResolution timeout hdispatched => exact h.awaitResolution hdispatched timeout
  | poll receiver deadline _ hwaiting hx => exact h.poll hwaiting hx
  | post approve now hch => exact h.post _ htimely
  | readFails hprompt => cases h.prompt.symm.trans hprompt
  | promptDies hprompt =>
    rcases hprompt with hprompt | hprompt
    · cases h.prompt.symm.trans hprompt
    · cases h.prompt.symm.trans hprompt
  | startForwarder duration hf => cases h.forwarder.symm.trans hf
  | pollForwarder deadline _ hf hx => cases h.forwarder.symm.trans hf

end Page

/-- The result agrees with the answer, and without one there will be none that counts. -/
structure Settles (clock : ℕ) (e : Exchange) (deadline : ℕ) (result : Except OobError OobResolution) :
    Prop where
  agrees : ∀ a, e.answers.head? = some a → Agrees a deadline result
  silent : e.answers = [] → deadline ≤ clock ∨ e.prompt = .none ∨ e.prompt = .ended

/-- The call at the prompt: the forwarder does not end before the call is entered. -/
def PromptCall (clock : ℕ) (e : Exchange) : Call → Prop
  | .idle => e.prompt = .none ∧ e.forwarder = .none ∧ e.preResolved = none
  | .dispatching => False
  | .dispatchFailed => False
  | .dispatched => e.forwarder ≠ .ended ∧ (e.preResolved = none ∨ e.prompt = .none)
  | .waiting receiver deadline =>
    e.forwarder ≠ .ended ∧ e.registration.sender = some receiver ∧
        e.registration.shots[receiver]? = some .pending ∨
      e.forwarder = .ended ∧ ∃ res, e.registration.shots[receiver]? = some (.sent res) ∧
        Settles clock e deadline (.ok res)
  | .returned deadline result => Settles clock e deadline result

/-- The keys that answer the challenge are its answers until the prompt reads one; then its outcome is
that of the first. -/
structure PromptInv (clock : ℕ) (keys : List Char) (e : Exchange) : Prop where
  unasked : e.prompt.shown = false → e.answers = []
  typed : e.answers = [] → keys = []
  unread : e.prompt = .prompted → e.Owed → keys.map outcomeOf = e.answers.map (·.outcome)
  read : e.prompt = .ended → e.Owed → ∀ a, e.answers.head? = some a →
    ∃ res, e.tty = .sent res ∧ res.outcome = a.outcome
  ended : e.tty ≠ .pending → e.prompt = .ended
  forwarder : e.prompt ≠ .none → e.forwarder ≠ .none
  call : PromptCall clock e e.call

section Prompt

variable {clock : ℕ} {id : ChallengeId} {keys : List Char} {e e' : Exchange} {autoDeny : Bool}

theorem promptInv_new : PromptInv 0 [] Exchange.new where
  unasked _ := rfl
  typed _ := rfl
  unread h := nomatch h
  read h := nomatch h
  ended h := absurd rfl h
  forwarder h := absurd rfl h
  call := ⟨rfl, rfl, rfl⟩

theorem Settles.tick {deadline : ℕ} {result : Except OobError OobResolution}
    (h : Settles clock e deadline result) (elapsed : ℕ) :
    Settles (clock + elapsed) e deadline result :=
  ⟨h.agrees, fun hnone => (h.silent hnone).imp_left fun _ => by omega⟩

theorem PromptInv.tick (h : PromptInv clock keys e) (elapsed : ℕ) :
    PromptInv (clock + elapsed) keys e := by
  refine ⟨h.unasked, h.typed, h.unread, h.read, h.ended, h.forwarder, ?_⟩
  have hcall := h.call
  cases hc : e.call with
  | waiting receiver deadline =>
    rw [hc] at hcall
    exact hcall.imp_right fun ⟨hf, res, hshot, hsettles⟩ => ⟨hf, res, hshot, hsettles.tick elapsed⟩
  | returned deadline result =>
    rw [hc] at hcall
    exact Settles.tick hcall elapsed
  | _ =>
    rw [hc] at hcall
    exact hcall

theorem not_owed (h : e.answers = []) : ¬e.Owed := by
  rintro ⟨a, ha, -⟩
  rw [h] at ha
  cases ha

/-- The call waits on an answer that was given before its deadline. -/
theorem owed_waiting {receiver deadline : ℕ} {a : Answer} (hcall : e.call = .waiting receiver deadline)
    (ha : e.answers.head? = some a) (hlt : a.time < deadline) : e.Owed := by
  refine ⟨a, ha, fun deadline' hd => ?_⟩
  rw [hcall] at hd
  rwa [← Option.some.inj hd]

/-- Without a deadline whatever was answered is owed. -/
theorem Exchange.Owed.before (h : e'.Owed) (hanswers : e'.answers = e.answers)
    (hcall : e.call.deadline? = none ∨ e.call.deadline? = e'.call.deadline?) : e.Owed := by
  obtain ⟨a, ha, hlt⟩ := h
  refine ⟨a, hanswers ▸ ha, fun deadline hd => ?_⟩
  rcases hcall with hnone | hsame
  · cases hnone.symm.trans hd
  · exact hlt deadline (hsame ▸ hd)

/-- The prompt ends. -/
theorem PromptCall.ends {call : Call} (h : PromptCall clock e call) (hspawned : e.prompt ≠ .none)
    (tty : OneShot) : PromptCall clock { e with prompt := .ended, tty := tty } call := by
  have hsettles : ∀ {deadline : ℕ} {result : Except OobError OobResolution},
      Settles clock e deadline result →
        Settles clock { e with prompt := .ended, tty := tty } deadline result :=
    fun hs => ⟨hs.agrees, fun _ => .inr (.inr rfl)⟩
  cases call with
  | idle => exact absurd h.1 hspawned
  | dispatching => exact h
  | dispatchFailed => exact h
  | dispatched => exact ⟨h.1, .inl (h.2.resolve_right hspawned)⟩
  | waiting receiver deadline =>
    exact h.imp_right fun ⟨hf, res, hshot, hs⟩ => ⟨hf, res, hshot, hsettles hs⟩
  | returned deadline result => exact hsettles h

theorem PromptInv.dispatch (h : PromptInv clock keys e) (hcall : e.call = .idle) (id : ChallengeId)
    (expiresAt now : Rfc3339Timestamp) :
    PromptInv clock keys (e.dispatch id expiresAt now (.terminalPrompt autoDeny)) := by
  have hidle := h.call
  rw [hcall] at hidle
  obtain ⟨hprompt, hforwarder, hpre⟩ := hidle
  have hnone : e.answers = [] := h.unasked (by rw [hprompt]; rfl)
  have htty : e.tty = .pending := by
    by_contra hne
    cases hprompt.symm.trans (h.ended hne)
  cases autoDeny with
  | true =>
    exact ⟨h.unasked, h.typed, fun _ howed => absurd howed (not_owed hnone),
      fun _ howed => absurd howed (not_owed hnone), h.ended, h.forwarder,
      by simp [Exchange.dispatch, hforwarder], .inr hprompt⟩
  | false =>
    exact ⟨fun _ => hnone, h.typed, fun _ howed => absurd howed (not_owed hnone),
      fun _ howed => absurd howed (not_owed hnone), fun hne => absurd htty hne,
      by simp [Exchange.dispatch], by simp [Exchange.dispatch], .inl hpre⟩

theorem PromptInv.awaitResolution (h : PromptInv clock keys e) (hcall : e.call = .dispatched)
    (timeout : ℕ) : PromptInv clock keys (e.awaitResolution clock timeout) := by
  have hbefore := h.call
  rw [hcall] at hbefore
  have hdeadline : e.call.deadline? = none := by rw [hcall]; rfl
  unfold Exchange.awaitResolution
  cases hpre : e.preResolved with
  | some res =>
    have hprompt : e.prompt = .none := hbefore.2.resolve_left (by simp [hpre])
    have hnone : e.answers = [] := h.unasked (by rw [hprompt]; rfl)
    refine ⟨h.unasked, h.typed, fun _ howed => absurd howed (not_owed hnone),
      fun _ howed => absurd howed (not_owed hnone), h.ended, h.forwarder, fun a ha => ?_,
      fun _ => .inr (.inl hprompt)⟩
    rw [show ({ e with preResolved := none, call := .returned (clock + timeout) (.ok res) } :
      Exchange).answers = e.answers from rfl, hnone] at ha
    cases ha
  | none =>
    obtain ⟨hsender, hshot⟩ := register_receiver e.registration
    exact ⟨h.unasked, h.typed, fun hp howed => h.unread hp (howed.before rfl (.inl hdeadline)),
      fun hp howed => h.read hp (howed.before rfl (.inl hdeadline)), h.ended, h.forwarder,
      .inl ⟨hbefore.1, hsender, hshot⟩⟩

theorem PromptInv.poll (h : PromptInv clock keys e) {receiver deadline : ℕ}
    (hcall : e.call = .waiting receiver deadline)
    (htimely : e.Owed → e.prompt ≠ .none → e.forwarder = .ended)
    (hx : e.poll clock receiver deadline = some e') : PromptInv clock keys e' := by
  have hbefore := h.call
  rw [hcall] at hbefore
  have hreturned : ∀ result, Settles clock e deadline result →
      PromptInv clock keys { e with call := .returned deadline result } := by
    intro result hsettles
    have hsame : e.call.deadline? = some deadline := by rw [hcall]; rfl
    exact ⟨h.unasked, h.typed, fun hp howed => h.unread hp (howed.before rfl (.inr hsame)),
      fun hp howed => h.read hp (howed.before rfl (.inr hsame)), h.ended, h.forwarder,
      hsettles.agrees, hsettles.silent⟩
  unfold Exchange.poll at hx
  rcases hbefore with ⟨hf, -, hshot⟩ | ⟨-, res, hshot, hsettles⟩
  · simp only [hshot] at hx
    split_ifs at hx with hlate
    obtain rfl := Option.some.inj hx
    refine hreturned _ ⟨fun a ha hlt => ?_, fun _ => .inl hlate⟩
    -- An answer in time would have been forwarded.
    have hprompt : e.prompt ≠ .none := by
      intro hnone
      have hanswers : e.answers = [] := h.unasked (by rw [hnone]; rfl)
      rw [hanswers] at ha
      cases ha
    exact absurd (htimely (owed_waiting hcall ha hlt) hprompt) hf
  · simp only [hshot] at hx
    obtain rfl := Option.some.inj hx
    exact hreturned _ hsettles

/-- The forwarder ends over a call that is entered. -/
theorem PromptInv.forwarded (h : PromptInv clock keys e) {deadline : ℕ}
    (hf : e.forwarder = .watching deadline) (hentered : e.call.entered = true) (res : OobResolution)
    (hres : ∀ receiver deadline, e.call = .waiting receiver deadline →
      Settles clock e deadline (.ok res)) :
    PromptInv clock keys { e.resolve res with forwarder := .ended } := by
  refine ⟨h.unasked, h.typed, h.unread, h.read, h.ended, fun _ hne => (nomatch hne), ?_⟩
  have hcall := h.call
  show PromptCall clock _ e.call
  cases hc : e.call with
  | idle => simp [hc, Call.entered] at hentered
  | dispatching => simp [hc, Call.entered] at hentered
  | dispatchFailed =>
    rw [hc] at hcall
    exact hcall
  | dispatched => simp [hc, Call.entered] at hentered
  | waiting receiver deadline' =>
    rw [hc] at hcall
    rcases hcall with ⟨-, hsender, hshot⟩ | ⟨hended, -⟩
    · obtain ⟨hagrees, hsilent⟩ := hres receiver deadline' hc
      exact .inr ⟨rfl, res, resolve_sender res hsender hshot, hagrees, hsilent⟩
    · cases hf.symm.trans hended
  | returned deadline' result =>
    rw [hc] at hcall
    exact ⟨hcall.agrees, hcall.silent⟩

theorem PromptInv.pollForwarder (h : PromptInv clock keys e) {deadline : ℕ}
    (hf : e.forwarder = .watching deadline) (hentered : e.call.entered = true)
    (htimely : e.tty = .pending → e.call.overdue clock ∧ ¬e.Owed)
    (hx : e.pollForwarder clock id deadline = some e') : PromptInv clock keys e' := by
  unfold Exchange.pollForwarder at hx
  cases htty : e.tty with
  | sent res =>
    simp only [htty] at hx
    obtain rfl := Option.some.inj hx
    have hended := h.ended (by simp [htty])
    refine h.forwarded hf hentered res fun receiver deadline' hcall => ⟨fun a ha hlt => ?_, fun _ => ?_⟩
    · obtain ⟨res', htty', hout⟩ := h.read hended (owed_waiting hcall ha hlt) a ha
      obtain rfl := OneShot.sent.inj (htty.symm.trans htty')
      exact ⟨res, rfl, hout⟩
    · exact .inr (.inr hended)
  | closed =>
    simp only [htty] at hx
    obtain rfl := Option.some.inj hx
    have hended := h.ended (by simp [htty])
    refine h.forwarded hf hentered _ fun receiver deadline' hcall => ⟨fun a ha hlt => ?_, fun _ => ?_⟩
    · obtain ⟨res', htty', -⟩ := h.read hended (owed_waiting hcall ha hlt) a ha
      cases htty.symm.trans htty'
    · exact .inr (.inr hended)
  | pending =>
    simp only [htty] at hx
    split_ifs at hx
    obtain rfl := Option.some.inj hx
    obtain ⟨hoverdue, howed⟩ := htimely htty
    refine h.forwarded hf hentered _ fun receiver deadline' hcall => ⟨fun a ha hlt => ?_, fun _ => ?_⟩
    · exact absurd (owed_waiting hcall ha hlt) howed
    · rw [hcall] at hoverdue
      exact .inl hoverdue

/-- The prompt ends without the key of an answer that is owed. -/
theorem PromptInv.ends (h : PromptInv clock keys e) (hprompt : e.prompt ≠ .none) (howed : ¬e.Owed)
    (tty : OneShot) : PromptInv clock keys { e with prompt := .ended, tty := tty } :=
  ⟨fun hp => (nomatch hp), h.typed, fun hp => (nomatch hp), fun _ howed' => absurd howed' howed,
    fun _ => rfl, fun _ => h.forwarder hprompt, h.call.ends hprompt tty⟩

/-- The fields that the others do not read. -/
theorem PromptCall.mono {call : Call} (h : PromptCall clock e call)
    (hregistration : e'.registration = e.registration) (hanswers : e'.answers = e.answers)
    (hpre : e'.preResolved = e.preResolved) (hforwarder : e'.forwarder = .ended ↔ e.forwarder = .ended)
    (hnone : e.forwarder = .none → e'.forwarder = .none)
    (hprompt : e.prompt = .none ↔ e'.prompt = .none) (hended : e.prompt = .ended ↔ e'.prompt = .ended) :
    PromptCall clock e' call := by
  have hsettles : ∀ {deadline : ℕ} {result : Except OobError OobResolution},
      Settles clock e deadline result → Settles clock e' deadline result := by
    intro deadline result hs
    refine ⟨by rw [hanswers]; exact hs.agrees, ?_⟩
    rw [hanswers, ← hprompt, ← hended]
    exact hs.silent
  cases call with
  | idle => exact ⟨hprompt.mp h.1, hnone h.2.1, hpre.trans h.2.2⟩
  | dispatching => exact h
  | dispatchFailed => exact h
  | dispatched => exact ⟨fun hf => h.1 (hforwarder.mp hf), by rw [hpre, ← hprompt]; exact h.2⟩
  | waiting receiver deadline =>
    refine h.imp ?_ ?_
    · rintro ⟨hf, hsender, hshot⟩
      rw [hregistration]
      exact ⟨fun hf' => hf (hforwarder.mp hf'), hsender, hshot⟩
    · rintro ⟨hf, res, hshot, hs⟩
      rw [hregistration]
      exact ⟨hforwarder.mpr hf, res, hshot, hsettles hs⟩
  | returned deadline result => exact hsettles h

/-- Every action in time keeps it. -/
theorem PromptInv.act (h : PromptInv clock keys e) {a : Action}
    (hx : Acts (.terminalPrompt autoDeny) clock id e a e') (htimely : Timely.act clock e a) :
    PromptInv clock keys e' := by
  have hcall := h.call
  cases hx with
  | dispatch expiresAt now hidle => exact h.dispatch hidle id expiresAt now
  | openPage hch => cases hch
  | writePrompt hprompt =>
    have hnone : e.answers = [] := h.unasked (by rw [hprompt]; rfl)
    refine ⟨fun _ => hnone, h.typed, fun _ howed => absurd howed (not_owed hnone),
      fun _ howed => absurd howed (not_owed hnone), fun hne => ?_,
      fun _ => h.forwarder (by simp [hprompt]), ?_⟩
    · cases hprompt.symm.trans (h.ended hne)
    · exact hcall.mono rfl rfl rfl Iff.rfl (fun hf => hf) (by simp [hprompt]) (by simp [hprompt])
  | dispatchReturns hdispatching =>
    rw [hdispatching] at hcall
    exact hcall.elim
  | dispatchFails hdispatching =>
    rw [hdispatching] at hcall
    exact hcall.elim
  | awaitResolution timeout hdispatched => exact h.awaitResolution hdispatched timeout
  | poll receiver deadline _ hwaiting hx => exact h.poll hwaiting htimely hx
  | post approve now hch => cases hch
  | readFails hprompt => exact h.ends (by simp [hprompt]) htimely _
  | promptDies hprompt =>
    refine h.ends ?_ htimely _
    rcases hprompt with hprompt | hprompt
    · simp [hprompt]
    · simp [hprompt]
  | startForwarder duration hf =>
    refine ⟨h.unasked, h.typed, h.unread, h.read, h.ended, by simp, ?_⟩
    exact hcall.mono rfl rfl rfl (by simp [hf]) (by simp [hf]) Iff.rfl Iff.rfl
  | pollForwarder deadline _ hf hx => exact h.pollForwarder hf htimely.1 htimely.2 hx

/-- The first answer once there is one more. -/
theorem first_of_answer {l : List Answer} {a b : Answer} (h : (l ++ [b]).head? = some a) :
    l.head? = some a ∨ l = [] ∧ a = b := by
  cases l with
  | nil => exact .inr ⟨rfl, (Option.some.inj h).symm⟩
  | cons first rest => exact .inl h

/-- The first answer is typed at a prompt that waits, or too late. -/
theorem Settles.answer {deadline : ℕ} {result : Except OobError OobResolution}
    (h : Settles clock e deadline result) (hshown : e.prompt.shown = true)
    (hlate : e.prompt = .ended → e.answers = [] → deadline ≤ clock) (outcome : OobChallengeOutcome) :
    Settles clock { e with answers := e.answers ++ [⟨outcome, clock⟩] } deadline result := by
  refine ⟨fun a ha hlt => ?_, fun hnone => absurd hnone (by simp)⟩
  rcases first_of_answer ha with hold | ⟨hnone, rfl⟩
  · exact h.agrees a hold hlt
  · have hlt' : clock < deadline := hlt
    rcases h.silent hnone with hdeadline | hprompt | hended
    · omega
    · rw [hprompt] at hshown
      cases hshown
    · have := hlate hended hnone
      omega

theorem PromptCall.answer {call : Call} (h : PromptCall clock e call) (hshown : e.prompt.shown = true)
    (hlate : ∀ deadline, call.deadline? = some deadline → e.prompt = .ended → e.answers = [] →
      deadline ≤ clock) (outcome : OobChallengeOutcome) :
    PromptCall clock { e with answers := e.answers ++ [⟨outcome, clock⟩] } call := by
  cases call with
  | waiting receiver deadline =>
    exact h.imp_right fun ⟨hf, res, hshot, hs⟩ =>
      ⟨hf, res, hshot, hs.answer hshown (hlate deadline rfl) outcome⟩
  | returned deadline result => exact Settles.answer h hshown (hlate deadline rfl) outcome
  | _ => exact h

/-- A line that answers the challenge: its first key waits for the prompt. -/
theorem PromptInv.answer (h : PromptInv clock keys e) (line : List Char)
    (htimely : Timely.typed clock e) :
    PromptInv clock (keys ++ if e.prompt.shown then [firstKey line] else []) (e.answer clock line) := by
  unfold Exchange.answer
  cases hshown : e.prompt.shown with
  | false =>
    rw [if_neg (by simp), if_neg (by simp), List.append_nil]
    exact h
  | true =>
    rw [if_pos rfl, if_pos rfl]
    -- What is owed after the line was owed before it, unless the line is the first.
    have howed : e.answers ≠ [] →
        Exchange.Owed { e with answers := e.answers ++ [⟨outcomeOf (firstKey line), clock⟩] } →
          e.Owed := by
      rintro hsome ⟨a, ha, hlt⟩
      exact ⟨a, (first_of_answer ha).resolve_right fun hnew => hsome hnew.1, hlt⟩
    have hlate : ∀ deadline, e.call.deadline? = some deadline → e.prompt = .ended →
        e.answers = [] → deadline ≤ clock := by
      intro deadline hdeadline hended hnone
      obtain ⟨deadline', hd, hle⟩ := htimely hended hnone
      obtain rfl := Option.some.inj (hdeadline.symm.trans hd)
      exact hle
    refine ⟨fun hp => ?_, fun hnone => absurd hnone (by simp), fun hp ho => ?_, fun hp ho a ha => ?_,
      h.ended, h.forwarder, h.call.answer hshown hlate _⟩
    · cases hshown.symm.trans hp
    · rw [List.map_append, List.map_append]
      congr 1
      by_cases hnone : e.answers = []
      · rw [h.typed hnone, hnone]
        rfl
      · exact h.unread hp (howed hnone ho)
    · rcases first_of_answer ha with hold | ⟨hnone, rfl⟩
      · exact h.read hp (howed (by rintro hnone; simp [hnone] at hold) ho) a hold
      · obtain ⟨deadline, hdeadline, hle⟩ := htimely hp hnone
        obtain ⟨b, hb, hlt⟩ := ho
        rw [ha] at hb
        obtain rfl := Option.some.inj hb
        have := hlt deadline hdeadline
        exact absurd this (by show ¬clock < deadline; omega)

theorem outcome_resolutionOf (id : ChallengeId) (key : Char) (now : Rfc3339Timestamp) :
    (resolutionOf id (approves key) now).outcome = outcomeOf key := by
  unfold resolutionOf outcomeOf
  split_ifs <;> rfl

/-- The prompt reads a key: that of the first answer, if one is owed. -/
theorem PromptInv.readKey (h : PromptInv clock keys e) {key : Keystroke} {rest : List Char}
    (now : Rfc3339Timestamp) (hprompt : e.prompt = .prompted) (htimely : Timely.read id e key)
    (hkeys : key.meant = some id → keys = key.char :: rest) (hrest : key.meant ≠ some id → rest = keys) :
    PromptInv clock rest (e.readKey id key.char now) := by
  have hspawned : e.prompt ≠ .none := by simp [hprompt]
  refine ⟨fun hp => (nomatch hp), fun hnone => ?_, fun hp => (nomatch hp), fun _ howed a ha => ?_,
    fun _ => rfl, fun _ => h.forwarder hspawned, h.call.ends hspawned _⟩
  · by_cases hmeant : key.meant = some id
    · cases (hkeys hmeant).symm.trans (h.typed hnone)
    · rw [hrest hmeant]
      exact h.typed hnone
  · have hmeant : key.meant = some id := htimely.resolve_right fun hother => hother.1 howed
    have hread := h.unread hprompt howed
    refine ⟨_, rfl, ?_⟩
    have hanswers : e.answers.head? = some a := ha
    cases hall : e.answers with
    | nil =>
      rw [hall] at hanswers
      cases hanswers
    | cons first others =>
      rw [hall] at hanswers hread
      rw [hkeys hmeant] at hread
      rw [outcome_resolutionOf, (List.cons.inj hread).1, Option.some.inj hanswers]

/-- Another takes a key that is not needed any more. -/
theorem PromptInv.taken {key : Char} {rest : List Char} (h : PromptInv clock (key :: rest) e)
    (htimely : Timely.taken e) : PromptInv clock rest e :=
  ⟨h.unasked, fun hnone => (nomatch h.typed hnone), fun hp howed => absurd howed (htimely hp), h.read,
    h.ended, h.forwarder, h.call⟩

end Prompt

/-! ### Every run -/

theorem Reachable.page {s : State} (h : Reachable .localhostConfirm Timely s) (id : ChallengeId) :
    PageInv s.clock (s.exchanges id) := by
  refine Reachable.inv (fun clock _ _ e => PageInv clock e) (fun _ => pageInv_new) ?_ ?_ ?_ ?_ ?_ h id
  · exact fun _ elapsed _ _ _ h => h.tick elapsed
  · exact fun _ _ _ _ _ _ h hx ht => h.act (acts_of_act hx) ht
  · intro clock id keys e line h _
    rw [show e.answer clock line = e from if_neg (by simp [h.prompt, Prompt.shown])]
    exact h
  · exact fun _ _ _ _ _ _ _ h hprompt => absurd hprompt (by simp [h.prompt])
  · exact fun _ _ _ _ _ h _ => h

theorem Reachable.prompt {autoDeny : Bool} {s : State} (h : Reachable (.terminalPrompt autoDeny) Timely s)
    (id : ChallengeId) : PromptInv s.clock (keysFor id s.input) (s.exchanges id) := by
  refine Reachable.inv (fun clock _ keys e => PromptInv clock keys e) (fun _ => promptInv_new)
    ?_ ?_ ?_ ?_ ?_ h id
  · exact fun _ elapsed _ _ _ h => h.tick elapsed
  · exact fun _ _ _ _ _ _ h hx ht => h.act (acts_of_act hx) ht
  · exact fun _ _ _ _ line h ht => h.answer line ht
  · exact fun _ _ _ _ _ now _ h hprompt ht hkeys hrest => h.readKey now hprompt ht hkeys hrest
  · exact fun _ _ _ _ _ h ht => h.taken ht

/-- What a call that returned in time agrees with. -/
theorem reachable_delivered {channel : Channel} {s : State} (h : Reachable channel Timely s)
    (id : ChallengeId) : (s.exchanges id).Delivered := by
  intro deadline result a hcall ha hlt
  cases channel with
  | localhostConfirm =>
    have hinv := (h.page id).call
    rw [hcall] at hinv
    obtain ⟨-, ⟨hnone, -⟩ | ⟨a', ha', hagrees⟩⟩ := hinv
    · simp [hnone] at ha
    · obtain rfl := Option.some.inj (ha.symm.trans ha')
      exact hagrees hlt
  | terminalPrompt autoDeny =>
    have hinv := (h.prompt id).call
    rw [hcall] at hinv
    exact hinv.agrees a ha hlt

/-- A call that was answered in time can go on and return the answer. -/
def Returns (channel : Channel) (s : State) (id : ChallengeId) : Prop :=
  ∀ receiver deadline a, (s.exchanges id).call = .waiting receiver deadline →
    (s.exchanges id).answers.head? = some a → a.time < deadline →
    ∃ s' res, Relation.ReflTransGen (Step channel Timely) s s' ∧
      (s'.exchanges id).call = .returned deadline (.ok res) ∧ res.outcome = a.outcome

/-- The call finds a resolution. -/
theorem returns_sent (channel : Channel) (s : State) (id : ChallengeId) (receiver : ℕ) {deadline : ℕ}
    {res : OobResolution} (hcall : (s.exchanges id).call = .waiting receiver deadline)
    (hshot : (s.exchanges id).registration.shots[receiver]? = some (.sent res))
    (htimely : Timely.act s.clock (s.exchanges id) .poll) :
    ∃ s', Relation.ReflTransGen (Step channel Timely) s s' ∧
      (s'.exchanges id).call = .returned deadline (.ok res) := by
  have hact : (s.exchanges id).act s.clock id channel .poll =
      some { s.exchanges id with call := .returned deadline (.ok res) } := by
    simp [Exchange.act, hcall, Exchange.poll, hshot]
  refine ⟨_, .single (.act id .poll _ hact htimely), ?_⟩
  rw [State.set_same]

/-- The key is forwarded, and then the call finds it. -/
theorem returns_watching (channel : Channel) (s : State) (id : ChallengeId)
    (receiver watched : ℕ) {deadline : ℕ} {res : OobResolution}
    (hcall : (s.exchanges id).call = .waiting receiver deadline)
    (hsender : (s.exchanges id).registration.sender = some receiver)
    (hshot : (s.exchanges id).registration.shots[receiver]? = some .pending)
    (htty : (s.exchanges id).tty = .sent res) (hf : (s.exchanges id).forwarder = .watching watched) :
    ∃ s', Relation.ReflTransGen (Step channel Timely) s s' ∧
      (s'.exchanges id).call = .returned deadline (.ok res) := by
  let e₁ : Exchange := { (s.exchanges id).resolve res with forwarder := .ended }
  have hact : (s.exchanges id).act s.clock id channel .pollForwarder = some e₁ := by
    simp [Exchange.act, hf, Exchange.pollForwarder, htty, e₁]
  have htimely : Timely.act s.clock (s.exchanges id) .pollForwarder :=
    ⟨by rw [hcall]; rfl, fun h => nomatch htty.symm.trans h⟩
  have hshot₁ : e₁.registration.shots[receiver]? = some (.sent res) :=
    resolve_sender res hsender hshot
  obtain ⟨s', hsteps, hreturned⟩ : ∃ s', Relation.ReflTransGen (Step channel Timely) (s.set id e₁) s' ∧
      (s'.exchanges id).call = .returned deadline (.ok res) := by
    refine returns_sent channel (s.set id e₁) id receiver ?_ ?_ ?_
    · rw [State.set_same]
      exact hcall
    · rw [State.set_same]
      exact hshot₁
    · rw [State.set_same]
      exact fun _ _ => rfl
  exact ⟨s', .head (.act id .pollForwarder _ hact htimely) hsteps, hreturned⟩

/-- The forwarder starts, if it has not yet. -/
theorem returns_forwarded (channel : Channel) (s : State) (id : ChallengeId) {receiver deadline : ℕ}
    {res : OobResolution} (hcall : (s.exchanges id).call = .waiting receiver deadline)
    (hsender : (s.exchanges id).registration.sender = some receiver)
    (hshot : (s.exchanges id).registration.shots[receiver]? = some .pending)
    (htty : (s.exchanges id).tty = .sent res) (hnone : (s.exchanges id).forwarder ≠ .none)
    (hended : (s.exchanges id).forwarder ≠ .ended) :
    ∃ s', Relation.ReflTransGen (Step channel Timely) s s' ∧
      (s'.exchanges id).call = .returned deadline (.ok res) := by
  cases hf : (s.exchanges id).forwarder with
  | none => exact absurd hf hnone
  | ended => exact absurd hf hended
  | watching watched => exact returns_watching channel s id receiver watched hcall hsender hshot htty hf
  | spawned duration =>
    let e₁ : Exchange := { s.exchanges id with forwarder := .watching (s.clock + duration) }
    have hact : (s.exchanges id).act s.clock id channel .startForwarder = some e₁ := by
      simp [Exchange.act, hf, e₁]
    have hset := State.set_same s id e₁
    obtain ⟨s', hsteps, hreturned⟩ : ∃ s', Relation.ReflTransGen (Step channel Timely) (s.set id e₁) s' ∧
        (s'.exchanges id).call = .returned deadline (.ok res) := by
      refine returns_watching channel (s.set id e₁) id receiver (s.clock + duration) ?_ ?_ ?_ ?_ ?_
      · rw [hset]
        exact hcall
      · rw [hset]
        exact hsender
      · rw [hset]
        exact hshot
      · rw [hset]
        exact htty
      · rw [hset]
    exact ⟨s', .head (.act id .startForwarder _ hact trivial) hsteps, hreturned⟩

/-- The keys before that of an answer that is owed are read or taken, and then the prompt reads it. -/
theorem returns_read {autoDeny : Bool} {s : State} (h : Reachable (.terminalPrompt autoDeny) Timely s)
    (id : ChallengeId) (hprompt : (s.exchanges id).prompt = .prompted)
    (howed : (s.exchanges id).Owed) :
    ∃ s' key, Reachable (.terminalPrompt autoDeny) Timely s' ∧
      Relation.ReflTransGen (Step (.terminalPrompt autoDeny) Timely) s s' ∧
      s'.exchanges id = (s.exchanges id).readKey id key (.ofSeconds 0) := by
  -- By induction on the keys that are ready.
  induction hlen : s.input.length generalizing s with
  | zero =>
    have hinput : s.input = [] := List.length_eq_zero_iff.mp hlen
    have hunread := (h.prompt id).unread hprompt howed
    obtain ⟨a, ha, -⟩ := howed
    rw [hinput, show keysFor id [] = [] from rfl, List.map_nil] at hunread
    rw [List.map_eq_nil_iff.mp hunread.symm] at ha
    cases ha
  | succ n ih =>
    obtain ⟨key, rest, hinput⟩ : ∃ key rest, s.input = key :: rest := by
      cases hin : s.input with
      | nil => simp [hin] at hlen
      | cons key rest => exact ⟨key, rest, rfl⟩
    have hrest : rest.length = n := by simpa [hinput] using hlen
    by_cases hmeant : key.meant = some id
    · have hstep : Step (.terminalPrompt autoDeny) Timely s (s.readKey id key.char (.ofSeconds 0) rest) :=
        .readKey id key rest _ hprompt hinput (.inl hmeant) fun id' hne hmeant' =>
          absurd (Option.some.inj (hmeant'.symm.trans hmeant)) hne
      exact ⟨_, key.char, h.tail hstep, .single hstep, State.set_same _ _ _⟩
    · -- A key of another challenge is read by its prompt if that still waits.
      obtain ⟨s₁, hstep, hsame, hinput₁⟩ : ∃ s₁, Step (.terminalPrompt autoDeny) Timely s s₁ ∧
          s₁.exchanges id = s.exchanges id ∧ s₁.input = rest := by
        by_cases hwaits : ∃ id', key.meant = some id' ∧ (s.exchanges id').prompt = .prompted
        · obtain ⟨id', hmeant', hprompt'⟩ := hwaits
          have hne : id ≠ id' := fun heq => hmeant (heq ▸ hmeant')
          refine ⟨_, .readKey id' key rest (.ofSeconds 0) hprompt' hinput (.inl hmeant')
            fun id'' hne' hmeant'' => ?_, State.set_other _ _ hne, rfl⟩
          exact absurd (Option.some.inj (hmeant''.symm.trans hmeant')) hne'
        · exact ⟨_, .taken key rest hinput fun id' hmeant' hprompt' =>
            absurd ⟨id', hmeant', hprompt'⟩ hwaits, rfl, rfl⟩
      obtain ⟨s', char, hs', hsteps, hread⟩ := ih (h.tail hstep) (by rw [hsame]; exact hprompt)
        (by rw [hsame]; exact howed) (by rw [hinput₁]; exact hrest)
      exact ⟨s', char, hs', .head hstep hsteps, hsame ▸ hread⟩

/-- Once the prompt has read the key of an answer in time, that is forwarded and returned. -/
theorem returns_ended {autoDeny : Bool} {s : State} (h : Reachable (.terminalPrompt autoDeny) Timely s)
    (id : ChallengeId) (hread : (s.exchanges id).prompt = .ended) :
    Returns (.terminalPrompt autoDeny) s id := by
  intro receiver deadline a hcall ha hlt
  have hprompt := h.prompt id
  have hinv := hprompt.call
  rw [hcall] at hinv
  rcases hinv with ⟨hended, hsender, hshot⟩ | ⟨hended, res, hshot, hsettles⟩
  · obtain ⟨res, htty, hout⟩ := hprompt.read hread (owed_waiting hcall ha hlt) a ha
    obtain ⟨s', hsteps, hreturned⟩ := returns_forwarded (.terminalPrompt autoDeny) s id hcall
      hsender hshot htty (hprompt.forwarder (by simp [hread])) hended
    exact ⟨s', res, hsteps, hreturned, hout⟩
  · obtain ⟨res', hres, hout⟩ := hsettles.agrees a ha hlt
    obtain rfl := Except.ok.inj hres
    obtain ⟨s', hsteps, hreturned⟩ := returns_sent (.terminalPrompt autoDeny) s id receiver hcall hshot
      fun _ _ => hended
    exact ⟨s', res, hsteps, hreturned, hout⟩

theorem reachable_returns {channel : Channel} {s : State} (h : Reachable channel Timely s)
    (id : ChallengeId) : Returns channel s id := by
  intro receiver deadline a hcall ha hlt
  cases channel with
  | localhostConfirm =>
    have hpage := h.page id
    have hinv := hpage.call
    rw [hcall] at hinv
    obtain ⟨-, ⟨hnone, -⟩ | ⟨a', res, ha', -, hshot, hout⟩⟩ := hinv
    · simp [hnone] at ha
    · obtain rfl := Option.some.inj (ha.symm.trans ha')
      obtain ⟨s', hsteps, hreturned⟩ := returns_sent .localhostConfirm s id receiver hcall hshot
        (fun _ hprompt => absurd hpage.prompt hprompt)
      exact ⟨s', res, hsteps, hreturned, hout⟩
  | terminalPrompt autoDeny =>
    have howed : (s.exchanges id).Owed := owed_waiting hcall ha hlt
    have hunasked := (h.prompt id).unasked
    cases hp : (s.exchanges id).prompt with
    | ended => exact returns_ended h id hp receiver deadline a hcall ha hlt
    | prompted =>
      obtain ⟨s₁, key, h₁, hsteps, hread⟩ := returns_read h id hp howed
      obtain ⟨s', res, hsteps', hreturned, hout⟩ := returns_ended h₁ id (by rw [hread]; rfl) receiver
        deadline a (by rw [hread]; exact hcall) (by rw [hread]; exact ha) hlt
      exact ⟨s', res, hsteps.trans hsteps', hreturned, hout⟩
    | none => exact absurd howed (not_owed (hunasked (by rw [hp]; rfl)))
    | spawned => exact absurd howed (not_owed (hunasked (by rw [hp]; rfl)))

theorem ownApprovals_timely : OwnApprovals Timely := by
  intro id e key hread happroves
  rcases hread with hmeant | ⟨-, hother⟩
  · exact hmeant
  · cases happroves.symm.trans hother

/-- **An answer is not lost**: in every run of a channel in which answers are recorded after the call
is entered, nothing expires over them and each prompt reads its own, the call returns the answer that
was given in time, and an approval only if it was given; and approvals are not made up in every run
whatever on the page, and on the terminal where no prompt takes an approval of another. -/
theorem answers_delivered (channel : Channel) :
    (∀ s, Reachable channel Timely s → ∀ id, (s.exchanges id).Delivered ∧ Returns channel s id ∧
        (s.exchanges id).Unforged) ∧
      ∀ T, channel = .localhostConfirm ∨ OwnApprovals T → ∀ s, Reachable channel T s →
        ∀ id, (s.exchanges id).Unforged :=
  ⟨fun _ h id => ⟨reachable_delivered h id, reachable_returns h id,
      reachable_unforged (.inr ownApprovals_timely) h id⟩,
    fun _ hown _ h id => reachable_unforged hown h id⟩

/-! ### Runs of two challenges -/

/-- A challenge. -/
def sampleChallenge : ChallengeId := ⟨Vector.replicate 16 4⟩

/-- Another challenge. -/
def secondChallenge : ChallengeId := ⟨Vector.replicate 16 5⟩

/-- The wall clock of the runs below. -/
def sampleInstant : Rfc3339Timestamp := .ofSeconds 0

/-- A state in which two challenges were made. -/
def duo (clock : ℕ) (input : List Keystroke) (first second : Exchange) : State where
  clock := clock
  exchanges id :=
    if id = sampleChallenge then first else if id = secondChallenge then second else Exchange.new
  input := input

section Duo

variable {channel : Channel} {T : Timing} {clock : ℕ} {input rest : List Keystroke}
  {first second e' : Exchange}

theorem duo_second : (duo clock input first second).exchanges secondChallenge = second := by
  simp [duo, sampleChallenge, secondChallenge]

theorem duo_set_first : (duo clock input first second).set sampleChallenge e' =
    duo clock input e' second := by
  unfold State.set duo
  congr 1
  funext id
  by_cases hid : id = sampleChallenge
  · simp [hid]
  · simp [hid]

theorem duo_set_second : (duo clock input first second).set secondChallenge e' =
    duo clock input first e' := by
  unfold State.set duo
  congr 1
  funext id
  have hne : secondChallenge ≠ sampleChallenge := by decide
  by_cases hid : id = secondChallenge
  · simp [hid, hne]
  · simp [hid]

theorem Reachable.duo_start : Reachable channel T (duo 0 [] Exchange.new Exchange.new) := by
  have hstart : duo 0 [] Exchange.new Exchange.new = State.start := by
    simp [duo, State.start]
  rw [hstart]
  exact .refl

theorem Reachable.duo_tick (h : Reachable channel T (duo clock input first second)) (elapsed : ℕ) :
    Reachable channel T (duo (clock + elapsed) input first second) :=
  h.tail (.tick elapsed)

theorem Reachable.act_first (h : Reachable channel T (duo clock input first second)) (a : Action)
    (hx : first.act clock sampleChallenge channel a = some e') (ht : T.act clock first a) :
    Reachable channel T (duo clock input e' second) := by
  rw [← duo_set_first]
  exact h.tail (.act sampleChallenge a e' hx ht)

theorem Reachable.act_second (h : Reachable channel T (duo clock input first second)) (a : Action)
    (hx : second.act clock secondChallenge channel a = some e') (ht : T.act clock second a) :
    Reachable channel T (duo clock input first e') := by
  rw [← duo_set_second]
  exact h.tail (.act secondChallenge a e' (by rw [duo_second]; exact hx) (by rw [duo_second]; exact ht))

/-- The operator answers the first challenge. -/
theorem Reachable.type_first (h : Reachable channel T (duo clock input first second)) (line : List Char)
    (ht : T.typed clock first) :
    Reachable channel T (duo clock
      (input ++ keystrokes (if first.prompt.shown then some sampleChallenge else none) line)
      (first.answer clock line) second) := by
  have hstep : Step channel T (duo clock input first second)
      ((duo clock input first second).typeLine sampleChallenge line) := .typeLine sampleChallenge line ht
  unfold State.typeLine at hstep
  rw [duo_set_first] at hstep
  exact h.tail hstep

theorem Reachable.read_first {key : Keystroke}
    (h : Reachable channel T (duo clock (key :: rest) first second)) (now : Rfc3339Timestamp)
    (hprompt : first.prompt = .prompted) (ht : T.read sampleChallenge first key)
    (hother : key.meant = none ∨ key.meant = some sampleChallenge) :
    Reachable channel T (duo clock rest (first.readKey sampleChallenge key.char now) second) := by
  have hstep : Step channel T (duo clock (key :: rest) first second)
      ((duo clock (key :: rest) first second).readKey sampleChallenge key.char now rest) := by
    refine .readKey sampleChallenge key rest now hprompt rfl ht fun id hne hmeant => ?_
    rcases hother with hnone | hown
    · cases hnone.symm.trans hmeant
    · exact absurd (Option.some.inj (hmeant.symm.trans hown)) hne
  unfold State.readKey at hstep
  rw [duo_set_first] at hstep
  exact h.tail hstep

/-- The prompt of the second challenge takes the key of another. -/
theorem Reachable.read_second {key : Keystroke}
    (h : Reachable channel T (duo clock (key :: rest) first second)) (now : Rfc3339Timestamp)
    (hprompt : second.prompt = .prompted) (ht : T.read secondChallenge second key)
    (hother : ∀ e, T.taken e) :
    Reachable channel T (duo clock rest first (second.readKey secondChallenge key.char now)) := by
  have hstep : Step channel T (duo clock (key :: rest) first second)
      ((duo clock (key :: rest) first second).readKey secondChallenge key.char now rest) := by
    refine .readKey secondChallenge key rest now ?_ rfl ?_ fun _ _ _ => hother _
    · rw [duo_second]
      exact hprompt
    · rw [duo_second]
      exact ht
  unfold State.readKey at hstep
  rw [duo_second, duo_set_second] at hstep
  exact h.tail hstep

end Duo

/-- The operator approves on the page, or types a line that denies, while the call waits. -/
theorem answers_returned :
    (∃ (s : State) (deadline : ℕ) (res : OobResolution),
      (s.exchanges sampleChallenge).call = .returned deadline (.ok res) ∧ res.outcome = .approved ∧
        (s.exchanges sampleChallenge).answers = [⟨.approved, 3⟩] ∧
        (s.exchanges sampleChallenge).Delivered ∧ (s.exchanges sampleChallenge).Unforged) ∧
    ∃ (s : State) (deadline : ℕ) (res : OobResolution),
      (s.exchanges sampleChallenge).call = .returned deadline (.ok res) ∧ res.outcome = .denied ∧
        (s.exchanges sampleChallenge).answers = [⟨.denied, 5⟩] ∧
        (s.exchanges secondChallenge).prompt = .prompted ∧
        (s.exchanges sampleChallenge).Delivered ∧ (s.exchanges sampleChallenge).Unforged := by
  constructor
  · have h₀ : Reachable .localhostConfirm Timely (duo 0 [] Exchange.new Exchange.new) :=
      Reachable.duo_start
    have h₁ := h₀.act_first (.dispatch sampleInstant sampleInstant) rfl trivial
    have h₂ := h₁.act_first .present rfl trivial
    have h₃ := h₂.act_first .dispatchReturns rfl trivial
    have h₄ := (h₃.act_first (.awaitResolution 120000) rfl trivial).duo_tick 3
    have h₅ := h₄.act_first (.post true sampleInstant) rfl fun _ => rfl
    have h₆ := h₅.act_first .poll rfl fun _ hprompt => absurd rfl hprompt
    obtain ⟨hdelivered, hunforged⟩ := answers_delivered .localhostConfirm
    exact ⟨_, 120000, approvedAt sampleChallenge sampleInstant, rfl, rfl, rfl,
      (hdelivered _ h₆ sampleChallenge).1, hunforged Timely (.inl rfl) _ h₆ sampleChallenge⟩
  · have h₀ : Reachable (.terminalPrompt false) Timely (duo 0 [] Exchange.new Exchange.new) :=
      Reachable.duo_start
    have h₁ := h₀.act_first (.dispatch sampleInstant sampleInstant) rfl trivial
    have h₂ := h₁.act_second (.dispatch sampleInstant sampleInstant) rfl trivial
    have h₃ := (h₂.act_first .present rfl trivial).act_second .present rfl trivial
    have h₄ := h₃.act_first .startForwarder rfl trivial
    have h₅ := (h₄.act_first (.awaitResolution 120000) rfl trivial).duo_tick 5
    have h₆ := h₅.type_first ['n', 'o'] fun h => nomatch h
    have h₇ := h₆.read_first sampleInstant rfl (.inl rfl) (.inr rfl)
    have h₈ := h₇.act_first .pollForwarder rfl ⟨rfl, fun h => nomatch h⟩
    have h₉ := h₈.act_first .poll rfl fun _ _ => rfl
    obtain ⟨hdelivered, -, hunforged⟩ := (answers_delivered (.terminalPrompt false)).1 _ h₉ sampleChallenge
    exact ⟨_, 120000, deniedFor sampleChallenge, rfl, rfl, rfl, duo_second ▸ rfl, hdelivered, hunforged⟩

/-- Anything may happen at any time. -/
def anyTime : Timing := ⟨fun _ _ _ => True, fun _ _ => True, fun _ _ _ => True, fun _ => True⟩

/-- **Answers are lost on both channels**: an approval on the page before the call is entered, and a
key on the terminal after its watchdog, one millisecond after the prompt.  And on the terminal an
approval is made up: of two prompts the second reads the key that was typed for the first. -/
theorem answers_lost :
    (¬ ∀ s, Reachable .localhostConfirm anyTime s → ∀ id, (s.exchanges id).Delivered) ∧
      (¬ ∀ s, Reachable (.terminalPrompt false) anyTime s → ∀ id, (s.exchanges id).Delivered) ∧
      ¬ ∀ s, Reachable (.terminalPrompt false) anyTime s → ∀ id, (s.exchanges id).Unforged := by
  refine ⟨fun hclaim => ?_, fun hclaim => ?_, fun hclaim => ?_⟩
  · have h₀ : Reachable .localhostConfirm anyTime (duo 0 [] Exchange.new Exchange.new) :=
      Reachable.duo_start
    have h₁ := h₀.act_first (.dispatch sampleInstant sampleInstant) rfl trivial
    have h₂ := h₁.act_first .present rfl trivial
    have h₃ := h₂.act_first (.post true sampleInstant) rfl trivial
    have h₄ := h₃.act_first .dispatchReturns rfl trivial
    have h₅ := (h₄.act_first (.awaitResolution 120000) rfl trivial).duo_tick 120000
    have h₆ := h₅.act_first .poll rfl trivial
    obtain ⟨res, hres, -⟩ := hclaim _ h₆ sampleChallenge 120000 (.error .timeout) ⟨.approved, 0⟩ rfl rfl
      (by decide)
    cases hres
  · have h₀ : Reachable (.terminalPrompt false) anyTime (duo 0 [] Exchange.new Exchange.new) :=
      Reachable.duo_start
    have h₁ := h₀.act_first (.dispatch sampleInstant sampleInstant) rfl trivial
    have h₂ := h₁.act_first .present rfl trivial
    have h₃ := h₂.act_first .startForwarder rfl trivial
    have h₄ := (h₃.act_first (.awaitResolution 120000) rfl trivial).duo_tick 1
    have h₅ := h₄.act_first .pollForwarder rfl trivial
    have h₆ := (h₅.act_first .poll rfl trivial).duo_tick 2000
    have h₇ := h₆.type_first ['y'] trivial
    obtain ⟨res, hres, hout⟩ := hclaim _ h₇ sampleChallenge 120000 (.ok (expiredFor sampleChallenge))
      ⟨.approved, 2001⟩ rfl rfl (by decide)
    rw [← Except.ok.inj hres] at hout
    cases hout
  · have h₀ : Reachable (.terminalPrompt false) anyTime (duo 0 [] Exchange.new Exchange.new) :=
      Reachable.duo_start
    have h₁ := h₀.act_first (.dispatch sampleInstant sampleInstant) rfl trivial
    have h₂ := h₁.act_second (.dispatch sampleInstant sampleInstant) rfl trivial
    have h₃ := (h₂.act_first .present rfl trivial).act_second .present rfl trivial
    have h₄ := h₃.act_second (.awaitResolution 120000) rfl trivial
    have h₅ := h₄.type_first ['y'] trivial
    have h₆ := h₅.read_second sampleInstant rfl trivial fun _ => trivial
    have h₇ := h₆.act_second .startForwarder rfl trivial
    have h₈ := h₇.act_second .pollForwarder rfl trivial
    have h₉ := h₈.act_second .poll rfl trivial
    have hforged := hclaim _ h₉ secondChallenge
    rw [duo_second] at hforged
    obtain ⟨a, ha, -⟩ := hforged 120000 (approvedAt secondChallenge sampleInstant) rfl rfl
    cases ha

end MerkleVault.Oob.Rendezvous
