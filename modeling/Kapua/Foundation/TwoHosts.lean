import Kapua.Foundation.Transition
import Mathlib.Data.List.Perm.Basic

/-!
# Two hosts and the datagrams between them

A program that exchanges messages with one peer, and two hosts that run it over a datagram network.
A `Host` is the state of its program, the messages in flight to it in sending order, and a log of
what it received and in which state, which nothing reads. An `Action` is one step: a host speaks of
its own accord, does something internal, or receives a message of its inbox, or the network loses
one. `deliver` names the message by its place in the inbox and says whether a copy stays in flight,
so a network that orders, loses or duplicates is a restriction on actions: `Ordered`, `ExactlyOnce`
and `AtMostOnce` are the ones used, and no restriction is a network that does all of these.

`Preserved.step` is the invariant rule. An invariant is a symmetric relation between a host and its
peer, and one obligation for each action, seen from the host that acts, carries it through every
step. `Simulation.run` is the refinement rule: programs that are related reaction by reaction are
related run by run, over the same network. `Simulation.run_preserved` is both at once.
-/

set_option autoImplicit false
set_option relaxedAutoImplicit false

namespace Kapua

/-- The two hosts. -/
inductive Side
  | first
  | second
  deriving DecidableEq

namespace Side

/-- The peer. -/
def other : Side → Side
  | first => second
  | second => first

@[simp] theorem other_other (side : Side) : side.other.other = side := by
  cases side <;> rfl

@[simp] theorem other_ne (side : Side) : side.other ≠ side := by
  cases side <;> decide

theorem eq_or_eq_other (side host : Side) : side = host ∨ side = host.other := by
  cases side <;> cases host <;> decide

theorem forall_iff {Holds : Side → Prop} (side : Side) :
    (∀ position, Holds position) ↔ Holds side ∧ Holds side.other := by
  refine ⟨fun h ↦ ⟨h side, h side.other⟩, fun ⟨hhost, hpeer⟩ position ↦ ?_⟩
  rcases eq_or_eq_other position side with rfl | rfl
  · exact hhost
  · exact hpeer

end Side

/-- A program with one peer, for one host.
* `announce` is what it sends to the peer of its own accord.
* `internal` is what it does on its own, `none` when it does nothing or fails.
* `receive` handles a message from the peer and replies, `none` when it fails. -/
structure Program (Party Message Draw : Type) where
  announce : Party → Draw → List Message
  internal : Party → Draw → Option Party
  receive : Party → Message → Draw → Option (Party × List Message)

/-- One host: its program's state, the messages in flight to it, and the messages it received, each
with the state it received it in. -/
structure Host (Party Message : Type) where
  party : Party
  inbox : List Message
  log : List (Party × Message)

/-- The two hosts of a network. -/
abbrev Network (Party Message : Type) := Side → Host Party Message

/-- One step of the network. -/
inductive Action (Draw : Type)
  | announce (side : Side) (draw : Draw)
  | internal (side : Side) (draw : Draw)
  | deliver (side : Side) (index : ℕ) (keep : Bool) (draw : Draw)
  | lose (side : Side) (index : ℕ)

namespace Action

variable {Draw : Type}

/-- An action without its draw. -/
def shape : Action Draw → Action Unit
  | announce side _ => announce side ()
  | internal side _ => internal side ()
  | deliver side index keep _ => deliver side index keep ()
  | lose side index => lose side index

/-- An action with another draw. -/
def map {Draw' : Type} (f : Draw → Draw') : Action Draw → Action Draw'
  | announce side draw => announce side (f draw)
  | internal side draw => internal side (f draw)
  | deliver side index keep draw => deliver side index keep (f draw)
  | lose side index => lose side index

theorem shape_map {Draw' : Type} (f : Draw → Draw') (action : Action Draw) :
    (action.map f).shape = action.shape := by
  cases action <;> rfl

/-- The draw of the action, if it has one, is one that the host it belongs to may make. -/
def FitsDraws (Good : Side → Draw → Prop) : Action Draw → Prop
  | announce side draw => Good side draw
  | internal side draw => Good side draw
  | deliver side _ _ draw => Good side draw
  | lose _ _ => True

theorem fitsDraws_map {Draw' : Type} {Good : Side → Draw' → Prop} {f : Draw → Draw'}
    (h : ∀ side draw, Good side (f draw)) (action : Action Draw) :
    (action.map f).FitsDraws Good := by
  cases action with
  | lose => trivial
  | _ => exact h _ _

/-- The network does not duplicate. -/
def AtMostOnce : Action Unit → Prop
  | deliver _ _ keep _ => keep = false
  | _ => True

/-- The network neither duplicates nor loses. -/
def ExactlyOnce : Action Unit → Prop
  | deliver _ _ keep _ => keep = false
  | lose _ _ => False
  | _ => True

/-- The network neither duplicates nor loses nor reorders. -/
def Ordered : Action Unit → Prop
  | deliver _ index keep _ => index = 0 ∧ keep = false
  | lose _ _ => False
  | _ => True

end Action

section Steps

variable {Party Message Draw : Type}

/-- What is left in flight once the message at `index` is delivered. -/
def Host.remaining (host : Host Party Message) (index : ℕ) (keep : Bool) : List Message :=
  if keep then host.inbox else host.inbox.eraseIdx index

/-- What is left in flight was in flight. -/
theorem Host.mem_of_mem_remaining {host : Host Party Message} {index : ℕ} {keep : Bool}
    {message : Message} (h : message ∈ host.remaining index keep) : message ∈ host.inbox := by
  unfold Host.remaining at h
  split at h
  · exact h
  · exact List.mem_of_mem_eraseIdx h

/-- The messages in flight are the one at a place and the ones left without it. -/
theorem perm_eraseIdx {messages : List Message} {index : ℕ} {message : Message}
    (h : messages[index]? = some message) : messages.Perm (message :: messages.eraseIdx index) := by
  obtain ⟨hindex, rfl⟩ := List.getElem?_eq_some_iff.mp h
  exact (List.getElem_cons_eraseIdx_perm hindex).symm

/-- More messages are in flight to a host. -/
def Host.post (host : Host Party Message) (messages : List Message) : Host Party Message :=
  { host with inbox := host.inbox ++ messages }

/-- A host is in the state `party` now. -/
def Host.become (host : Host Party Message) (party : Party) : Host Party Message :=
  { host with party := party }

/-- The message at `index` is no longer in flight. -/
def Host.drop (host : Host Party Message) (index : ℕ) : Host Party Message :=
  { host with inbox := host.inbox.eraseIdx index }

/-- A host received a message and is in the state `party` now. -/
def Host.received (host : Host Party Message) (index : ℕ) (keep : Bool) (message : Message)
    (party : Party) : Host Party Message where
  party := party
  inbox := host.remaining index keep
  log := host.log ++ [(host.party, message)]

/-- The network with the given hosts. -/
def Network.pair (side : Side) (host peer : Host Party Message) : Network Party Message :=
  fun position ↦ if position = side then host else peer

@[simp] theorem Network.pair_self (side : Side) (host peer : Host Party Message) :
    Network.pair side host peer side = host := if_pos rfl

@[simp] theorem Network.pair_other (side : Side) (host peer : Host Party Message) :
    Network.pair side host peer side.other = peer := if_neg (Side.other_ne side)

/-- One step of two hosts that run `program`; `none` when the action is not possible. -/
def Network.step (program : Side → Program Party Message Draw) (network : Network Party Message) :
    Action Draw → Option (Network Party Message)
  | .announce side draw => some (.pair side (network side)
      ((network side.other).post ((program side).announce (network side).party draw)))
  | .internal side draw =>
    match (program side).internal (network side).party draw with
    | none => none
    | some party => some (.pair side ((network side).become party) (network side.other))
  | .deliver side index keep draw =>
    match (network side).inbox[index]? with
    | none => none
    | some message =>
      match (program side).receive (network side).party message draw with
      | none => none
      | some (party, replies) => some (.pair side
          ((network side).received index keep message party) ((network side.other).post replies))
  | .lose side index =>
    if index < (network side).inbox.length then
      some (.pair side ((network side).drop index) (network side.other))
    else none

/-- The steps whose action the network allows and whose draw the host may make. -/
def Network.Allowed (program : Side → Program Party Message Draw) (allows : Action Unit → Prop)
    (Good : Side → Draw → Prop) (network : Network Party Message) (action : Action Draw)
    (next : Network Party Message) : Prop :=
  allows action.shape ∧ action.FitsDraws Good ∧ network.step program action = some next

/-- A step of the network, by what it did. -/
theorem Network.step_cases {program : Side → Program Party Message Draw}
    {network next : Network Party Message} {action : Action Draw}
    (h : network.step program action = some next) :
    (∃ side draw, action = .announce side draw ∧ next = .pair side (network side)
      ((network side.other).post ((program side).announce (network side).party draw))) ∨
    (∃ side draw party, action = .internal side draw ∧
      (program side).internal (network side).party draw = some party ∧
      next = .pair side ((network side).become party) (network side.other)) ∨
    (∃ side index keep draw message party replies, action = .deliver side index keep draw ∧
      (network side).inbox[index]? = some message ∧
      (program side).receive (network side).party message draw = some (party, replies) ∧
      next = .pair side ((network side).received index keep message party)
        ((network side.other).post replies)) ∨
    ∃ side index, action = .lose side index ∧ index < (network side).inbox.length ∧
      next = .pair side ((network side).drop index) (network side.other) := by
  cases action with
  | announce side draw => exact Or.inl ⟨side, draw, rfl, (Option.some.inj h).symm⟩
  | internal side draw =>
    simp only [Network.step] at h
    split at h
    · cases h
    · rename_i party hparty
      exact Or.inr (Or.inl ⟨side, draw, party, rfl, hparty, (Option.some.inj h).symm⟩)
  | deliver side index keep draw =>
    simp only [Network.step] at h
    split at h
    · cases h
    · rename_i message hmessage
      split at h
      · cases h
      · rename_i party replies hreceive
        exact Or.inr (Or.inr (Or.inl ⟨side, index, keep, draw, message, party, replies, rfl,
          hmessage, hreceive, (Option.some.inj h).symm⟩))
  | lose side index =>
    simp only [Network.step] at h
    split_ifs at h with hindex
    exact Or.inr (Or.inr (Or.inr ⟨side, index, rfl, hindex, (Option.some.inj h).symm⟩))

/-- A sequence of steps; `none` as soon as one is not possible. -/
def Network.play (program : Side → Program Party Message Draw) :
    Network Party Message → List (Action Draw) → Option (Network Party Message)
  | network, [] => some network
  | network, action :: rest => (network.step program action).bind fun next ↦ play program next rest

/-- A sequence of steps that is possible is a run. Assumes: the network allows each. -/
theorem Network.run_of_play {program : Side → Program Party Message Draw}
    {allows : Action Unit → Prop} {Good : Side → Draw → Prop}
    {network final : Network Party Message} {actions : List (Action Draw)}
    (h : network.play program actions = some final)
    (hallowed : ∀ action ∈ actions, allows action.shape ∧ action.FitsDraws Good) :
    Run (Network.Allowed program allows Good) network actions final := by
  induction actions generalizing network with
  | nil =>
    obtain rfl := Option.some.inj h
    exact .nil network
  | cons action rest ih =>
    obtain ⟨next, hstep, hrest⟩ := Option.bind_eq_some_iff.mp h
    obtain ⟨hallows, hdraws⟩ := hallowed action (List.mem_cons_self ..)
    exact .cons ⟨hallows, hdraws, hstep⟩
      (ih hrest fun other hother ↦ hallowed other (List.mem_cons_of_mem _ hother))

section Forward

variable {program : Side → Program Party Message Draw} {network : Network Party Message}
  {side : Side} {index : ℕ} {draw : Draw} {party : Party}

theorem Network.step_internal (h : (program side).internal (network side).party draw = some party) :
    network.step program (.internal side draw) =
      some (.pair side ((network side).become party) (network side.other)) := by
  simp only [Network.step, h]

theorem Network.step_deliver {message : Message} {replies : List Message}
    (hmessage : (network side).inbox[index]? = some message)
    (h : (program side).receive (network side).party message draw = some (party, replies))
    (keep : Bool) : network.step program (.deliver side index keep draw) =
      some (.pair side ((network side).received index keep message party)
        ((network side.other).post replies)) := by
  simp only [Network.step, hmessage, h]

theorem Network.step_lose (h : index < (network side).inbox.length) :
    network.step program (.lose side index) =
      some (.pair side ((network side).drop index) (network side.other)) := by
  simp only [Network.step, if_pos h]

end Forward

end Steps

/-! ### Invariants -/

/-- The obligations of an invariant between a host and its peer, seen from the host that acts. -/
structure Preserved {Party Message Draw : Type} (program : Side → Program Party Message Draw)
    (allows : Action Unit → Prop) (Good : Side → Draw → Prop)
    (Invariant : Host Party Message → Host Party Message → Prop) : Prop where
  symm : ∀ {host peer}, Invariant host peer → Invariant peer host
  announce : ∀ {side draw host peer}, Good side draw → Invariant host peer →
    Invariant host (peer.post ((program side).announce host.party draw))
  internal : ∀ {side draw host peer party}, Good side draw →
    (program side).internal host.party draw = some party → Invariant host peer →
      Invariant (host.become party) peer
  deliver : ∀ {side index keep draw host peer message party replies},
    allows (.deliver side index keep ()) → Good side draw → host.inbox[index]? = some message →
      (program side).receive host.party message draw = some (party, replies) →
        Invariant host peer →
          Invariant (host.received index keep message party) (peer.post replies)
  lose : ∀ {side index host peer}, allows (.lose side index) → Invariant host peer →
    Invariant (host.drop index) peer

/-- What always holds is an invariant. -/
theorem preserved_true {Party Message Draw : Type}
    (program : Side → Program Party Message Draw) (allows : Action Unit → Prop)
    (Good : Side → Draw → Prop) : Preserved program allows Good fun _ _ ↦ True where
  symm := fun _ ↦ trivial
  announce := fun _ _ ↦ trivial
  internal := fun _ _ _ ↦ trivial
  deliver := fun _ _ _ _ _ ↦ trivial
  lose := fun _ _ ↦ trivial

namespace Preserved

variable {Party Message Draw : Type} {program : Side → Program Party Message Draw}
  {allows : Action Unit → Prop} {Good : Side → Draw → Prop}
  {Invariant : Host Party Message → Host Party Message → Prop}
  (h : Preserved program allows Good Invariant)

include h

/-- A symmetric invariant holds from both sides as soon as it holds from one. -/
theorem pair {side : Side} {host peer : Host Party Message} (hinv : Invariant host peer)
    (position : Side) :
    Invariant (Network.pair side host peer position)
      (Network.pair side host peer position.other) := by
  rcases Side.eq_or_eq_other position side with rfl | rfl
  · simpa using hinv
  · simpa using h.symm hinv

/-- Two invariants are one. -/
theorem and {Invariant' : Host Party Message → Host Party Message → Prop}
    (h' : Preserved program allows Good Invariant') :
    Preserved program allows Good fun host peer ↦ Invariant host peer ∧ Invariant' host peer where
  symm := fun hinv ↦ ⟨h.symm hinv.1, h'.symm hinv.2⟩
  announce := fun hgood hinv ↦ ⟨h.announce hgood hinv.1, h'.announce hgood hinv.2⟩
  internal := fun hgood hparty hinv ↦
    ⟨h.internal hgood hparty hinv.1, h'.internal hgood hparty hinv.2⟩
  deliver := fun hallows hgood hmessage hreceive hinv ↦
    ⟨h.deliver hallows hgood hmessage hreceive hinv.1,
      h'.deliver hallows hgood hmessage hreceive hinv.2⟩
  lose := fun hallows hinv ↦ ⟨h.lose hallows hinv.1, h'.lose hallows hinv.2⟩

/-- One step keeps the invariant. -/
theorem step {network next : Network Party Message} {action : Action Draw}
    (hstep : Network.Allowed program allows Good network action next)
    (hinv : ∀ side, Invariant (network side) (network side.other)) :
    ∀ side, Invariant (next side) (next side.other) := by
  obtain ⟨hallows, hgood, hstep⟩ := hstep
  rcases Network.step_cases hstep with ⟨side, draw, rfl, rfl⟩ |
    ⟨side, draw, party, rfl, hparty, rfl⟩ |
    ⟨side, index, keep, draw, message, party, replies, rfl, hmessage, hreceive, rfl⟩ |
    ⟨side, index, rfl, -, rfl⟩
  · exact h.pair (h.announce hgood (hinv side))
  · exact h.pair (h.internal hgood hparty (hinv side))
  · exact h.pair (h.deliver hallows hgood hmessage hreceive (hinv side))
  · exact h.pair (h.lose hallows (hinv side))

end Preserved

/-! ### Simulation -/

section ForallTwo

variable {α β : Type} {R : α → β → Prop} {left : List α} {right : List β}

/-- Related lists have related elements at every place. -/
theorem exists_of_forall₂ (h : List.Forall₂ R left right) {index : ℕ} {a : α}
    (ha : left[index]? = some a) : ∃ b, right[index]? = some b ∧ R a b := by
  induction h generalizing index with
  | nil => simp at ha
  | cons hhead _ ih =>
    cases index with
    | zero =>
      obtain rfl : _ = a := by simpa using ha
      exact ⟨_, rfl, hhead⟩
    | succ index => exact ih (by simpa using ha)

/-- Related lists have related elements. -/
theorem exists_mem_of_forall₂ (h : List.Forall₂ R left right) {b : β} (hb : b ∈ right) :
    ∃ a ∈ left, R a b := by
  induction h with
  | nil => simp at hb
  | cons hhead _ ih =>
    rcases List.mem_cons.mp hb with rfl | hrest
    · exact ⟨_, List.mem_cons_self .., hhead⟩
    · obtain ⟨a, ha, hrelated⟩ := ih hrest
      exact ⟨a, List.mem_cons_of_mem _ ha, hrelated⟩

/-- Removing the elements at the same place keeps lists related. -/
theorem forall₂_eraseIdx (h : List.Forall₂ R left right) (index : ℕ) :
    List.Forall₂ R (left.eraseIdx index) (right.eraseIdx index) := by
  rw [List.eraseIdx_eq_take_drop_succ, List.eraseIdx_eq_take_drop_succ]
  exact List.rel_append (List.forall₂_take index h) (List.forall₂_drop (index + 1) h)

end ForallTwo

/-- Programs related reaction by reaction. `Parties side` relates the states of the host `side` and
`Messages side` what that host sends; `Enabled` is what the abstract side may assume of a message
that is received. -/
structure Simulation {Party Message Draw Party' Message' Draw' : Type}
    (program : Side → Program Party Message Draw)
    (program' : Side → Program Party' Message' Draw') (Good : Side → Draw → Prop)
    (Good' : Side → Draw' → Prop) (Parties : Side → Party → Party' → Prop)
    (Messages : Side → Message → Message' → Prop) (Enabled : Party' → Message' → Prop) : Prop where
  announce : ∀ {side party party' draw}, Parties side party party' → Good side draw →
    ∃ draw', Good' side draw' ∧ List.Forall₂ (Messages side)
      ((program side).announce party draw) ((program' side).announce party' draw')
  internal : ∀ {side party party' draw next}, Parties side party party' → Good side draw →
    (program side).internal party draw = some next → ∃ draw' next', Good' side draw' ∧
      (program' side).internal party' draw' = some next' ∧ Parties side next next'
  receive : ∀ {side party party' message message' draw next replies}, Parties side party party' →
    Messages side.other message message' → Enabled party' message' → Good side draw →
    (program side).receive party message draw = some (next, replies) →
    ∃ draw' next' replies', Good' side draw' ∧
      (program' side).receive party' message' draw' = some (next', replies') ∧
      Parties side next next' ∧ List.Forall₂ (Messages side) replies replies'

/-- Hosts in related states, with related messages in flight and received. -/
structure HostRelated {Party Message Party' Message' : Type} (Parties : Party → Party' → Prop)
    (Messages : Message → Message' → Prop) (host : Host Party Message)
    (host' : Host Party' Message') : Prop where
  party : Parties host.party host'.party
  inbox : List.Forall₂ Messages host.inbox host'.inbox
  log : List.Forall₂ (fun entry entry' ↦ Parties entry.1 entry'.1 ∧ Messages entry.2 entry'.2)
    host.log host'.log

namespace HostRelated

variable {Party Message Party' Message' : Type} {Parties : Party → Party' → Prop}
  {Messages : Message → Message' → Prop} {host : Host Party Message} {host' : Host Party' Message'}
  (h : HostRelated Parties Messages host host')

include h

theorem post {messages : List Message} {messages' : List Message'}
    (hmessages : List.Forall₂ Messages messages messages') :
    HostRelated Parties Messages (host.post messages) (host'.post messages') :=
  ⟨h.party, List.rel_append h.inbox hmessages, h.log⟩

theorem received (index : ℕ) (keep : Bool) {message : Message} {message' : Message'}
    {party : Party} {party' : Party'} (hmessage : Messages message message')
    (hparty : Parties party party') : HostRelated Parties Messages
      (host.received index keep message party) (host'.received index keep message' party') where
  party := hparty
  inbox := by
    cases keep with
    | true => exact h.inbox
    | false => exact forall₂_eraseIdx h.inbox index
  log := List.rel_append h.log (.cons ⟨h.party, hmessage⟩ .nil)

end HostRelated

namespace Simulation

variable {Party Message Draw Party' Message' Draw' : Type}
  {program : Side → Program Party Message Draw} {program' : Side → Program Party' Message' Draw'}
  {Good : Side → Draw → Prop} {Good' : Side → Draw' → Prop}
  {Parties : Side → Party → Party' → Prop} {Messages : Side → Message → Message' → Prop}
  {Enabled : Party' → Message' → Prop}

/-- Networks whose hosts are related. -/
def Related (Parties : Side → Party → Party' → Prop) (Messages : Side → Message → Message' → Prop)
    (network : Network Party Message) (network' : Network Party' Message') : Prop :=
  ∀ side, HostRelated (Parties side) (Messages side.other) (network side) (network' side)

theorem related_pair {side : Side} {host peer : Host Party Message}
    {host' peer' : Host Party' Message'}
    (hhost : HostRelated (Parties side) (Messages side.other) host host')
    (hpeer : HostRelated (Parties side.other) (Messages side) peer peer') :
    Related Parties Messages (.pair side host peer) (.pair side host' peer') := by
  intro position
  rcases Side.eq_or_eq_other position side with rfl | rfl
  · simpa using hhost
  · simpa using hpeer

variable (h : Simulation program program' Good Good' Parties Messages Enabled)

include h

/-- The abstract hosts follow every step, with an action of the same shape. Assumes: a message that
is received is enabled. -/
theorem step {network next : Network Party Message} {network' : Network Party' Message'}
    {action : Action Draw} (hgood : action.FitsDraws Good)
    (hstep : network.step program action = some next)
    (hrelated : Related Parties Messages network network')
    (henabled : ∀ {side index keep message'}, action.shape = .deliver side index keep () →
      (network' side).inbox[index]? = some message' →
        Enabled (network' side).party message') :
    ∃ action' next', action'.shape = action.shape ∧ action'.FitsDraws Good' ∧
      network'.step program' action' = some next' ∧ Related Parties Messages next next' := by
  rcases Network.step_cases hstep with ⟨side, draw, rfl, rfl⟩ |
    ⟨side, draw, party, rfl, hparty, rfl⟩ |
    ⟨side, index, keep, draw, message, party, replies, rfl, hmessage, hreceive, rfl⟩ |
    ⟨side, index, rfl, hindex, rfl⟩
  · obtain ⟨draw', hgood', hannounced⟩ := h.announce (hrelated side).party hgood
    refine ⟨.announce side draw', _, rfl, hgood', rfl, related_pair (hrelated side) ?_⟩
    have hpeer := hrelated side.other
    rw [Side.other_other] at hpeer
    exact hpeer.post hannounced
  · obtain ⟨draw', party', hgood', hparty', hnext⟩ := h.internal (hrelated side).party hgood hparty
    have hhost : HostRelated (Parties side) (Messages side.other) ((network side).become party)
        ((network' side).become party') :=
      ⟨hnext, (hrelated side).inbox, (hrelated side).log⟩
    have hpeer := hrelated side.other
    rw [Side.other_other] at hpeer
    exact ⟨.internal side draw', _, rfl, hgood', Network.step_internal hparty',
      related_pair hhost hpeer⟩
  · obtain ⟨message', hmessage', hmessages⟩ := exists_of_forall₂ (hrelated side).inbox hmessage
    obtain ⟨draw', party', replies', hgood', hreceive', hnext, hreplies⟩ :=
      h.receive (hrelated side).party hmessages (henabled rfl hmessage') hgood hreceive
    refine ⟨.deliver side index keep draw', _, rfl, hgood',
      Network.step_deliver hmessage' hreceive' keep,
      related_pair ((hrelated side).received index keep hmessages hnext) ?_⟩
    have hpeer := hrelated side.other
    rw [Side.other_other] at hpeer
    exact hpeer.post hreplies
  · have hindex' : index < (network' side).inbox.length := by
      rwa [← (hrelated side).inbox.length_eq]
    have hhost : HostRelated (Parties side) (Messages side.other) ((network side).drop index)
        ((network' side).drop index) :=
      ⟨(hrelated side).party, forall₂_eraseIdx (hrelated side).inbox index, (hrelated side).log⟩
    have hpeer := hrelated side.other
    rw [Side.other_other] at hpeer
    exact ⟨.lose side index, _, rfl, trivial, Network.step_lose hindex', related_pair hhost hpeer⟩

/-- The abstract hosts follow every run over a network that allows the same actions. Assumes: an
invariant of the abstract hosts under which every message that can be received is enabled. -/
theorem run {allows : Action Unit → Prop} (Invariant : Network Party' Message' → Prop)
    (hinvariant : ∀ {network' action' next'}, Invariant network' →
      Network.Allowed program' allows Good' network' action' next' → Invariant next')
    (henabled : ∀ {network' side index keep message'}, Invariant network' →
      allows (.deliver side index keep ()) → (network' side).inbox[index]? = some message' →
        Enabled (network' side).party message')
    {network final : Network Party Message} {network' : Network Party' Message'}
    {actions : List (Action Draw)}
    (hrun : Run (Network.Allowed program allows Good) network actions final)
    (hrelated : Related Parties Messages network network') (hstart : Invariant network') :
    ∃ actions' final', Run (Network.Allowed program' allows Good') network' actions' final' ∧
      Related Parties Messages final final' ∧ Invariant final' := by
  refine hrun.simulate
    (fun network network' ↦ Related Parties Messages network network' ∧ Invariant network')
    ?_ ⟨hrelated, hstart⟩
  rintro network action next network' ⟨hrelated, hinv⟩ ⟨hallows, hgood, hstep⟩
  obtain ⟨action', next', hshape, hgood', hstep', hnext⟩ := h.step hgood hstep hrelated
    (fun hdeliver hmessage ↦ henabled hinv (by rwa [← hdeliver]) hmessage)
  have hallowed : Network.Allowed program' allows Good' network' action' next' :=
    ⟨by rwa [hshape], hgood', hstep'⟩
  exact ⟨action', next', hallowed, hnext, hinvariant hinv hallowed⟩

/-- The same, with an invariant of the abstract hosts given by its obligations. -/
theorem run_preserved {allows : Action Unit → Prop}
    {Invariant : Host Party' Message' → Host Party' Message' → Prop}
    (hpreserved : Preserved program' allows Good' Invariant)
    (henabled : ∀ {side index keep host peer message'}, Invariant host peer →
      allows (.deliver side index keep ()) → host.inbox[index]? = some message' →
        Enabled host.party message')
    {network final : Network Party Message} {network' : Network Party' Message'}
    {actions : List (Action Draw)}
    (hrun : Run (Network.Allowed program allows Good) network actions final)
    (hrelated : Related Parties Messages network network')
    (hstart : ∀ side, Invariant (network' side) (network' side.other)) :
    ∃ final', Related Parties Messages final final' ∧
      ∀ side, Invariant (final' side) (final' side.other) := by
  obtain ⟨-, final', -, hfinal, hinv⟩ := h.run
    (fun network ↦ ∀ side, Invariant (network side) (network side.other))
    (fun hinv hstep ↦ hpreserved.step hstep hinv)
    (fun hinv hallows hmessage ↦ henabled (hinv _) hallows hmessage) hrun hrelated hstart
  exact ⟨final', hfinal, hinv⟩

end Simulation

end Kapua
