import Kapua.Foundation.TwoHosts
import Kapua.Node.Core

/-!
# The handshake as a protocol

What the receive loop does for one peer, with the bytes, the table and the cryptography taken away.
An endpoint is `none` before the peer is known and a `Session` afterwards; a message carries the
session key it transports (`context`) or is encrypted with (`ready`); and a `Choice` says what the
environment decides during one step: the key that is generated, what a new session finds in its key
slots, and whether the cryptographic calls succeed.

`Reaction` lists what receiving a message can do, and every invariant is proved from it.
`progress` is the place of an endpoint in the handshake, from 0, the peer is not known, to 5, the
session is connected.
-/

set_option autoImplicit false
set_option relaxedAutoImplicit false

namespace Kapua.Handshake

/-- The messages of the handshake, and discovery. -/
inductive Message (Key : Type)
  | discovery
  | request
  | reply
  | context (key : Key)
  | ready (key : Key)
  deriving DecidableEq

/-- What an endpoint knows of its peer. -/
structure Session (Key : Type) where
  state : NodeState
  tx : Key
  rx : Key
  deriving DecidableEq

/-- What the environment decides during one step.
* `fresh` is the session key that is generated.
* `tx` and `rx` are what the key slots of a new session hold.
* `encrypts`, `decrypts` and `seals` say whether a session key can be encrypted, whether an
  encrypted one can be decrypted, and whether a message can be encrypted. -/
structure Choice (Key : Type) where
  fresh : Key
  tx : Key
  rx : Key
  encrypts : Bool
  decrypts : Bool
  seals : Bool

/-- The choices of an environment in which the cryptographic calls succeed. -/
structure Choice.Works {Key : Type} (choice : Choice Key) : Prop where
  encrypts : choice.encrypts = true
  decrypts : choice.decrypts = true
  seals : choice.seals = true

variable {Key : Type}

/-- What a session does with a message. -/
def handle [DecidableEq Key] (session : Session Key) (message : Message Key) (choice : Choice Key) :
    Session Key × List (Message Key) :=
  match message with
  | .discovery => (session, [])
  | .request => ({ session with state := .keyExchange }, [.reply])
  | .reply =>
    if session.state = .keyExchange then
      if choice.encrypts then
        ({ session with state := .handshake, tx := choice.fresh }, [.context choice.fresh])
      else ({ session with tx := choice.fresh }, [])
    else (session, [])
  | .context key =>
    if session.state = .handshake ∧ choice.decrypts then
      ({ session with state := .checkEncryption, rx := key },
        if choice.seals then [.ready session.tx] else [])
    else (session, [])
  | .ready key =>
    if session.state = .checkEncryption ∧ key = session.rx then
      ({ session with state := .connected }, [])
    else (session, [])

/-- The session of a peer that was not known. -/
def Choice.session (choice : Choice Key) : Session Key := ⟨.initialised, choice.tx, choice.rx⟩

/-- What an endpoint does with a message. An encrypted message of an unknown peer is not
understood; any other message makes the peer known and asks for its public key first. -/
def receive [DecidableEq Key] (endpoint : Option (Session Key)) (message : Message Key)
    (choice : Choice Key) :
    Option (Session Key) × List (Message Key) :=
  match endpoint, message with
  | none, .ready _ => (none, [])
  | none, message =>
    (some (handle choice.session message choice).1,
      .request :: (handle choice.session message choice).2)
  | some session, message => (some (handle session message choice).1,
      (handle session message choice).2)

/-- The handshake as a program. -/
def protocol [DecidableEq Key] :
    Side → Program (Option (Session Key)) (Message Key) (Choice Key) := fun _ ↦
  { announce := fun _ _ ↦ [.discovery]
    internal := fun endpoint _ ↦ some endpoint
    receive := fun endpoint message choice ↦ some (receive endpoint message choice) }

/-- A host that has not heard of its peer. -/
def fresh : Host (Option (Session Key)) (Message Key) := ⟨none, [], []⟩

/-! ### What an endpoint has reached -/

/-- The place of an endpoint in the handshake. -/
def progress : Option (Session Key) → ℕ
  | none => 0
  | some session => session.state.rank + 1

/-- The session key an endpoint sends with. -/
def tx (endpoint : Option (Session Key)) : Option Key := endpoint.map Session.tx

/-- The session key an endpoint receives with. -/
def rx (endpoint : Option (Session Key)) : Option Key := endpoint.map Session.rx

@[simp] theorem progress_none : progress (none : Option (Session Key)) = 0 := rfl

@[simp] theorem progress_some (session : Session Key) :
    progress (some session) = session.state.rank + 1 := rfl

theorem progress_le_five (endpoint : Option (Session Key)) : progress endpoint ≤ 5 := by
  cases endpoint with
  | none => simp
  | some session =>
    rw [progress_some]
    cases session.state <;> decide

/-- What receiving a message can do to an endpoint, and what it sends.
* `ignored`: a message the endpoint has no use for.
* `met`: the same from an unknown peer.
* `greeted` and `requested`: a request of an unknown and of a known peer.
* `unsealed` and `replied`: a reply, without and with a session key to send.
* `keyed`: a session key.
* `confirmed`: a message encrypted with it. -/
inductive Reaction (choice : Choice Key) (endpoint : Option (Session Key)) :
    Message Key → Option (Session Key) → List (Message Key) → Prop
  | ignored {message : Message Key} (hrequest : message ≠ .request)
      (hreply : message = .reply → progress endpoint ≠ 2)
      (hcontext : ∀ key, message = .context key → progress endpoint ≠ 3 ∨ choice.decrypts = false)
      (hready : ∀ key, message = .ready key → progress endpoint ≠ 4 ∨ rx endpoint ≠ some key)
      (hknown : progress endpoint ≠ 0 ∨ ∃ key, message = .ready key) :
      Reaction choice endpoint message endpoint []
  | met {message : Message Key} {next : Option (Session Key)} (hrequest : message ≠ .request)
      (hready : ∀ key, message ≠ .ready key) (hbefore : progress endpoint = 0)
      (hafter : progress next = 1) : Reaction choice endpoint message next [.request]
  | greeted {next : Option (Session Key)} (hbefore : progress endpoint = 0)
      (hafter : progress next = 2) : Reaction choice endpoint .request next [.request, .reply]
  | requested {next : Option (Session Key)} (hbefore : progress endpoint ≠ 0)
      (hafter : progress next = 2) (htx : tx next = tx endpoint) (hrx : rx next = rx endpoint) :
      Reaction choice endpoint .request next [.reply]
  | unsealed {next : Option (Session Key)} (hbefore : progress endpoint = 2)
      (hafter : progress next = 2) (hrx : rx next = rx endpoint)
      (hencrypts : choice.encrypts = false) : Reaction choice endpoint .reply next []
  | replied {next : Option (Session Key)} (hbefore : progress endpoint = 2)
      (hafter : progress next = 3) (htx : tx next = some choice.fresh)
      (hrx : rx next = rx endpoint) :
      Reaction choice endpoint .reply next [.context choice.fresh]
  | keyed {next : Option (Session Key)} {key own : Key} (hbefore : progress endpoint = 3)
      (hafter : progress next = 4) (hown : tx endpoint = some own) (htx : tx next = some own)
      (hrx : rx next = some key) : Reaction choice endpoint (.context key) next
        (if choice.seals then [.ready own] else [])
  | confirmed {next : Option (Session Key)} {key : Key} (hbefore : progress endpoint = 4)
      (hafter : progress next = 5) (hkey : rx endpoint = some key) (htx : tx next = tx endpoint)
      (hrx : rx next = rx endpoint) : Reaction choice endpoint (.ready key) next []

/-- A session is where its state says. -/
theorem progress_eq_iff (session : Session Key) (state : NodeState) :
    progress (some session) = state.rank + 1 ↔ session.state = state := by
  rw [progress_some, Nat.add_right_cancel_iff, NodeState.rank_inj]

/-- A message that is encrypted with another session key, or comes before the endpoint has one, does
nothing. -/
theorem receive_refused [DecidableEq Key] {endpoint : Option (Session Key)} {key : Key}
    (h : progress endpoint < 4 ∨ rx endpoint ≠ some key) (choice : Choice Key) :
    receive endpoint (.ready key) choice = (endpoint, []) := by
  cases endpoint with
  | none => rfl
  | some session =>
    have hnot : ¬ (session.state = .checkEncryption ∧ key = session.rx) := by
      rintro ⟨hstate, rfl⟩
      have hplace := (progress_eq_iff session .checkEncryption).mpr hstate
      rcases h with hearly | hother
      · exact absurd hplace hearly.ne
      · exact hother rfl
    simp only [receive, handle, if_neg hnot]

/-- Any other message is handled by the session the endpoint has, or by a new one, which asks for a
public key first. -/
theorem receive_handled [DecidableEq Key] {endpoint : Option (Session Key)} {message : Message Key}
    (h : (∀ key, message ≠ .ready key) ∨ endpoint ≠ none) (choice : Choice Key) :
    receive endpoint message choice =
      (some (handle (endpoint.getD choice.session) message choice).1,
        (if endpoint = none then [.request] else []) ++
          (handle (endpoint.getD choice.session) message choice).2) := by
  cases endpoint with
  | some session => simp [receive]
  | none =>
    cases message with
    | ready key => simp at h
    | _ => rfl

/-- Receiving a message does one of the things `Reaction` lists. -/
theorem reaction_of_receive [DecidableEq Key] (endpoint : Option (Session Key))
    (message : Message Key) (choice : Choice Key) : Reaction choice endpoint message
      (receive endpoint message choice).1 (receive endpoint message choice).2 := by
  cases endpoint with
  | none =>
    cases message with
    | discovery => exact .met (by simp) (by simp) rfl rfl
    | request => exact .greeted rfl rfl
    | reply => exact .met (by simp) (by simp) rfl rfl
    | context key => exact .met (by simp) (by simp) rfl rfl
    | ready key => exact .ignored (by simp) (by simp) (by simp) (by simp) (by simp)
  | some session =>
    have hknown : progress (some session) ≠ 0 := by simp
    cases message with
    | discovery => exact .ignored (by simp) (by simp) (by simp) (by simp) (Or.inl hknown)
    | request => exact .requested hknown rfl rfl rfl
    | reply =>
      simp only [receive, handle]
      by_cases hstate : session.state = .keyExchange
      · rw [if_pos hstate]
        have hbefore : progress (some session) = 2 :=
          (progress_eq_iff session .keyExchange).mpr hstate
        cases hencrypts : choice.encrypts with
        | false => exact .unsealed hbefore hbefore rfl hencrypts
        | true => exact .replied hbefore rfl rfl rfl
      · rw [if_neg hstate]
        exact .ignored (by simp) (fun _ ↦ mt (progress_eq_iff session .keyExchange).mp hstate)
          (by simp) (by simp) (Or.inl hknown)
    | context key =>
      simp only [receive, handle]
      by_cases hstate : session.state = .handshake ∧ choice.decrypts = true
      · rw [if_pos hstate]
        exact .keyed ((progress_eq_iff session .handshake).mpr hstate.1) rfl rfl rfl rfl
      · rw [if_neg hstate]
        refine .ignored (by simp) (by simp) (fun _ _ ↦ ?_) (by simp) (Or.inl hknown)
        rcases not_and_or.mp hstate with hother | hfails
        · exact Or.inl (mt (progress_eq_iff session .handshake).mp hother)
        · exact Or.inr (by simpa using hfails)
    | ready key =>
      simp only [receive, handle]
      by_cases hstate : session.state = .checkEncryption ∧ key = session.rx
      · rw [if_pos hstate]
        obtain ⟨hcheck, rfl⟩ := hstate
        exact .confirmed ((progress_eq_iff session .checkEncryption).mpr hcheck) rfl rfl rfl rfl
      · rw [if_neg hstate]
        refine .ignored (by simp) (by simp) (by simp) (fun other hother ↦ ?_) (Or.inl hknown)
        obtain rfl : key = other := by simpa using hother
        rcases not_and_or.mp hstate with hother | hkey
        · exact Or.inl (mt (progress_eq_iff session .checkEncryption).mp hother)
        · exact Or.inr (by simpa [rx, eq_comm] using hkey)

/-- An endpoint that knows its peer does not forget it, and whoever speaks first becomes known. -/
theorem Reaction.known {choice : Choice Key} {endpoint next : Option (Session Key)}
    {message : Message Key} {sent : List (Message Key)}
    (h : Reaction choice endpoint message next sent)
    (hknown : 1 ≤ progress endpoint ∨ message = .discovery) : 1 ≤ progress next := by
  cases h with
  | ignored _ _ _ _ hbefore =>
    rcases hknown with hknown | rfl
    · exact hknown
    · rcases hbefore with hbefore | ⟨key, hready⟩
      · exact Nat.pos_of_ne_zero hbefore
      · cases hready
  | met _ _ _ hafter => exact hafter.ge
  | greeted _ hafter => omega
  | requested _ hafter => omega
  | unsealed _ hafter => omega
  | replied _ hafter => omega
  | keyed _ hafter => omega
  | confirmed _ hafter => omega

/-- An endpoint does nothing internal that an invariant could notice. -/
theorem internal_preserved [DecidableEq Key] {side : Side} {choice : Choice Key}
    {host peer : Host (Option (Session Key)) (Message Key)} {party : Option (Session Key)}
    {Invariant : Host (Option (Session Key)) (Message Key) →
      Host (Option (Session Key)) (Message Key) → Prop}
    (hparty : (protocol side).internal host.party choice = some party) (h : Invariant host peer) :
    Invariant (host.become party) peer := by
  obtain rfl := Option.some.inj hparty
  exact h

/-- A host that received a discovery knows its peer. -/
def Discovers (host peer : Host (Option (Session Key)) (Message Key)) : Prop :=
  ((∃ entry ∈ host.log, entry.2 = .discovery) → 1 ≤ progress host.party) ∧
    ((∃ entry ∈ peer.log, entry.2 = .discovery) → 1 ≤ progress peer.party)

theorem discovers_preserved [DecidableEq Key] (allows : Action Unit → Prop)
    (Good : Side → Choice Key → Prop) : Preserved protocol allows Good Discovers where
  symm := And.symm
  announce := fun _ h ↦ h
  internal := fun _ hparty h ↦ internal_preserved hparty h
  deliver := by
    intro side index keep choice host peer message party replies _ _ _ hreceive h
    obtain ⟨rfl, rfl⟩ := Prod.mk.inj (Option.some.inj hreceive)
    refine ⟨fun ⟨entry, hentry, hdiscovery⟩ ↦ ?_, h.2⟩
    refine (reaction_of_receive host.party message choice).known ?_
    rcases List.mem_append.mp hentry with hold | hnew
    · exact Or.inl (h.1 ⟨entry, hold, hdiscovery⟩)
    · rw [List.mem_singleton.mp hnew] at hdiscovery
      exact Or.inr hdiscovery
  lose := fun _ h ↦ h

theorem discovers_fresh : Discovers (fresh : Host (Option (Session Key)) (Message Key)) fresh :=
  ⟨by simp [fresh], by simp [fresh]⟩

/-! ### What is in flight -/

/-- No message of the handshake is in flight. -/
def Quiet (messages : List (Message Key)) : Prop := ∀ message ∈ messages, message = .discovery

/-- The number of requests in flight. -/
def requests [DecidableEq Key] (messages : List (Message Key)) : ℕ := messages.count .request

/-- The number of replies in flight. -/
def replies [DecidableEq Key] (messages : List (Message Key)) : ℕ := messages.count .reply

/-- The session key a message transports. -/
def Message.context? : Message Key → Option Key
  | context key => some key
  | _ => none

/-- The session key a message is encrypted with. -/
def Message.ready? : Message Key → Option Key
  | ready key => some key
  | _ => none

/-- The session keys in flight. -/
def contexts (messages : List (Message Key)) : List Key := messages.filterMap Message.context?

/-- The session keys that messages in flight are encrypted with. -/
def readys (messages : List (Message Key)) : List Key := messages.filterMap Message.ready?

section InFlight

variable (first second : List (Message Key)) (message : Message Key)

@[simp] theorem contexts_nil : contexts ([] : List (Message Key)) = [] := rfl

@[simp] theorem readys_nil : readys ([] : List (Message Key)) = [] := rfl

@[simp] theorem contexts_cons :
    contexts (message :: first) = message.context?.toList ++ contexts first := by
  cases message <;> rfl

@[simp] theorem readys_cons :
    readys (message :: first) = message.ready?.toList ++ readys first := by
  cases message <;> rfl

@[simp] theorem contexts_append : contexts (first ++ second) = contexts first ++ contexts second :=
  List.filterMap_append ..

@[simp] theorem readys_append : readys (first ++ second) = readys first ++ readys second :=
  List.filterMap_append ..

variable [DecidableEq Key]

@[simp] theorem requests_nil : requests ([] : List (Message Key)) = 0 := rfl

@[simp] theorem replies_nil : replies ([] : List (Message Key)) = 0 := rfl

@[simp] theorem requests_cons :
    requests (message :: first) = requests first + if message = .request then 1 else 0 := by
  simp [requests, List.count_cons]

@[simp] theorem replies_cons :
    replies (message :: first) = replies first + if message = .reply then 1 else 0 := by
  simp [replies, List.count_cons]

@[simp] theorem requests_append : requests (first ++ second) = requests first + requests second :=
  List.count_append ..

@[simp] theorem replies_append : replies (first ++ second) = replies first + replies second :=
  List.count_append ..

end InFlight

end Kapua.Handshake
