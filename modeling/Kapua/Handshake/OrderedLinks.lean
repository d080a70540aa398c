import Kapua.Handshake.Agreement

/-!
# The handshake over ordered links

Over links that deliver every message once and in order, the messages in flight are determined: an
endpoint sends a request, a reply, a session key and a message encrypted with it, in this order, and
what is in flight is the part of that sequence its peer has not handled yet. `stage?` numbers the
sequence, and `InOrder` states that the stages in flight are consecutive, from the peer's next one
to the host's last one, whatever discovery messages lie between them.

So the next message is always one the endpoint is waiting for (`Orderly.awaited`): nothing of the
handshake is dropped, and nothing that has been reached is given up (`goesOn_of_run`).
-/

set_option autoImplicit false
set_option relaxedAutoImplicit false

namespace Kapua.Handshake

variable {Key : Type}

/-- The place of a message in the sequence an endpoint sends. -/
def Message.stage? : Message Key → Option ℕ
  | discovery => none
  | request => some 0
  | reply => some 1
  | context _ => some 2
  | ready _ => some 3

/-- The stages of the messages in flight. -/
def stages (messages : List (Message Key)) : List ℕ := messages.filterMap Message.stage?

@[simp] theorem stages_nil : stages ([] : List (Message Key)) = [] := rfl

@[simp] theorem stages_cons (message : Message Key) (messages : List (Message Key)) :
    stages (message :: messages) = message.stage?.toList ++ stages messages := by
  cases message <;> rfl

@[simp] theorem stages_append (first second : List (Message Key)) :
    stages (first ++ second) = stages first ++ stages second :=
  List.filterMap_append ..

theorem Quiet.stages_eq_nil {messages : List (Message Key)} (h : Quiet messages) :
    stages messages = [] := by
  refine List.filterMap_eq_nil_iff.mpr fun message hmessage ↦ ?_
  rw [h message hmessage]
  rfl

/-- The number of messages of the sequence an endpoint has sent. -/
def spoken (endpoint : Option (Session Key)) : ℕ := min (progress endpoint) 4

/-- The number of messages of its peer's sequence an endpoint has handled. -/
def heard (endpoint : Option (Session Key)) : ℕ := progress endpoint - 1

/-- The messages of `host` in flight are those the peer has not handled. -/
structure InOrder (host peer : Host (Option (Session Key)) (Message Key)) : Prop where
  bound : heard peer.party ≤ spoken host.party
  stages : stages peer.inbox =
    List.range' (heard peer.party) (spoken host.party - heard peer.party)

/-- The next message of an ordered link: one outside the handshake, or the peer's next stage. -/
theorem InOrder.next {host peer : Host (Option (Session Key)) (Message Key)}
    {message : Message Key} {rest : List (Message Key)} (h : InOrder peer host)
    (hinbox : host.inbox = message :: rest) :
    heard host.party + message.stage?.toList.length ≤ spoken peer.party ∧
    (∀ stage, message.stage? = some stage → stage = heard host.party) ∧
    Handshake.stages rest = List.range' (heard host.party + message.stage?.toList.length)
      (spoken peer.party - (heard host.party + message.stage?.toList.length)) := by
  have hstages := h.stages
  rw [hinbox, stages_cons] at hstages
  cases hstage : message.stage? with
  | none =>
    rw [hstage, Option.toList_none, List.nil_append] at hstages
    simpa using ⟨h.bound, hstages⟩
  | some stage =>
    rw [hstage, Option.toList_some, List.singleton_append] at hstages
    cases hcount : spoken peer.party - heard host.party with
    | zero => simp [hcount] at hstages
    | succ count =>
      rw [hcount, List.range'_succ] at hstages
      obtain ⟨rfl, hrest⟩ := List.cons.inj hstages
      refine ⟨by simp; omega, by simp, ?_⟩
      have hleft : spoken peer.party - (heard host.party + 1) = count := by omega
      simpa [hleft] using hrest

/-- A message that is awaited takes the endpoint one stage on, and what it sends continues its own
sequence. Assumes: the cryptographic calls succeed. -/
theorem Reaction.advances {choice : Choice Key} (hworks : choice.Works)
    {endpoint next : Option (Session Key)} {message : Message Key} {sent : List (Message Key)}
    (h : Reaction choice endpoint message next sent)
    (hrequest : message = .request → progress endpoint ≤ 1)
    (hreply : message = .reply → progress endpoint = 2)
    (hcontext : ∀ key, message = .context key → progress endpoint = 3)
    (hready : ∀ key, message = .ready key → progress endpoint = 4 ∧ rx endpoint = some key) :
    heard next = heard endpoint + message.stage?.toList.length ∧
    spoken endpoint ≤ spoken next ∧
    stages sent = List.range' (spoken endpoint) (spoken next - spoken endpoint) := by
  cases h with
  | ignored hother hnoreply hnocontext hnoready =>
    have hdiscovery : message.stage? = none := by
      cases message with
      | discovery => rfl
      | request => exact absurd rfl hother
      | reply => exact absurd (hreply rfl) (hnoreply rfl)
      | context key =>
        rcases hnocontext key rfl with hplace | hfails
        · exact absurd (hcontext key rfl) hplace
        · exact absurd (hworks.decrypts.symm.trans hfails) (by simp)
      | ready key =>
        obtain ⟨hplace, hkey⟩ := hready key rfl
        rcases hnoready key rfl with hother | hother
        · exact absurd hplace hother
        · exact absurd hkey hother
    simp [hdiscovery]
  | met hother hnoready hbefore hafter =>
    have hdiscovery : message.stage? = none := by
      cases message with
      | discovery => rfl
      | request => exact absurd rfl hother
      | reply => exact absurd (hreply rfl) (by omega)
      | context key => exact absurd (hcontext key rfl) (by omega)
      | ready key => exact absurd rfl (hnoready key)
    rw [hdiscovery]
    simp [heard, spoken, hbefore, hafter, Message.stage?]
  | greeted hbefore hafter =>
    simp [heard, spoken, hbefore, hafter, Message.stage?, List.range'_succ]
  | requested hbefore hafter =>
    have hone : progress endpoint = 1 := by
      have := hrequest rfl
      omega
    simp [heard, spoken, hone, hafter, Message.stage?]
  | unsealed _ _ _ hfails => exact absurd (hworks.encrypts.symm.trans hfails) (by simp)
  | replied hbefore hafter => simp [heard, spoken, hbefore, hafter, Message.stage?]
  | keyed hbefore hafter =>
    simp [heard, spoken, hbefore, hafter, Message.stage?, hworks.seals]
  | confirmed hbefore hafter => simp [heard, spoken, hbefore, hafter, Message.stage?]

/-- The message at the front of an inbox. -/
theorem exists_inbox_of_head {host : Host (Option (Session Key)) (Message Key)}
    {message : Message Key} (h : host.inbox[0]? = some message) :
    ∃ rest, host.inbox = message :: rest := by
  rw [← List.head?_eq_getElem?] at h
  exact List.head?_eq_some_iff.mp h

variable [DecidableEq Key]

/-- Both directions are in order, and the two endpoints agree. -/
def Orderly (host peer : Host (Option (Session Key)) (Message Key)) : Prop :=
  Agreed host peer ∧ InOrder host peer ∧ InOrder peer host

/-- The next message of an ordered link is one the endpoint is waiting for. -/
theorem Orderly.awaited {host peer : Host (Option (Session Key)) (Message Key)}
    {message : Message Key} {rest : List (Message Key)} (h : Orderly host peer)
    (hinbox : host.inbox = message :: rest) :
    (message = .request → progress host.party ≤ 1) ∧
    (message = .reply → progress host.party = 2) ∧
    (∀ key, message = .context key → progress host.party = 3) ∧
    ∀ key, message = .ready key → progress host.party = 4 ∧ rx host.party = some key := by
  obtain ⟨-, hstage, -⟩ := h.2.2.next hinbox
  simp only [heard] at hstage
  refine ⟨?_, ?_, ?_, ?_⟩
  · rintro rfl
    have := hstage 0 rfl
    omega
  · rintro rfl
    have := hstage 1 rfl
    omega
  · rintro key rfl
    have := hstage 2 rfl
    omega
  · rintro key rfl
    have hplace : progress host.party = 4 := by
      have := hstage 3 rfl
      omega
    refine ⟨hplace, (h.1.2.keyed hplace.ge).trans (h.1.2.ready key ?_)⟩
    simp [hinbox, Message.ready?]

/-- Receiving the next message keeps both directions in order. -/
theorem Orderly.deliver {host peer : Host (Option (Session Key)) (Message Key)}
    {message : Message Key} (h : Orderly host peer) (hmessage : host.inbox[0]? = some message)
    {choice : Choice Key} (hworks : choice.Works) :
    Orderly (host.received 0 false message (receive host.party message choice).1)
      (peer.post (receive host.party message choice).2) := by
  obtain ⟨rest, hinbox⟩ := exists_inbox_of_head hmessage
  obtain ⟨hrequest, hreply, hcontext, hready⟩ := h.awaited hinbox
  obtain ⟨hheard, hspoken, hsent⟩ := (reaction_of_receive host.party message choice).advances
    hworks hrequest hreply hcontext hready
  obtain ⟨hbound, -, hrest⟩ := h.2.2.next hinbox
  refine ⟨h.1.deliver hmessage choice, ⟨?_, ?_⟩, ⟨?_, ?_⟩⟩
  · exact h.2.1.bound.trans hspoken
  · have hsplit : spoken (receive host.party message choice).1 - heard peer.party =
        (spoken host.party - heard peer.party) +
          (spoken (receive host.party message choice).1 - spoken host.party) := by
      have := h.2.1.bound
      omega
    have hstart : heard peer.party + (spoken host.party - heard peer.party) =
        spoken host.party := by
      have := h.2.1.bound
      omega
    simp only [Host.post, Host.received, stages_append, h.2.1.stages, hsent, hsplit]
    rw [← List.range'_append_1, hstart]
  · exact hheard.le.trans hbound
  · simp only [Host.received, Host.remaining, hinbox, hheard]
    exact hrest

/-- Order is an invariant over ordered links. Assumes: the cryptographic calls succeed. -/
theorem orderly_preserved :
    Preserved (protocol : Side → Program (Option (Session Key)) (Message Key) (Choice Key))
      Action.Ordered (fun _ choice ↦ choice.Works) Orderly where
  symm := fun h ↦ ⟨⟨h.1.2, h.1.1⟩, h.2.2, h.2.1⟩
  announce := by
    intro side choice host peer hgood h
    refine ⟨(agreed_preserved fun _ choice ↦ choice.Works).announce hgood h.1, ⟨h.2.1.bound, ?_⟩,
      ⟨h.2.2.bound, h.2.2.stages⟩⟩
    simpa [Host.post, protocol, Message.stage?] using h.2.1.stages
  internal := fun _ hparty h ↦ internal_preserved hparty h
  deliver := by
    intro side index keep choice host peer message party replies hallowed hworks hmessage hreceive h
    obtain ⟨rfl, rfl⟩ : index = 0 ∧ keep = false := hallowed
    obtain ⟨rfl, rfl⟩ := Prod.mk.inj (Option.some.inj hreceive)
    exact h.deliver hmessage hworks
  lose := fun hallowed ↦ hallowed.elim

theorem orderly_fresh : Orderly (fresh : Host (Option (Session Key)) (Message Key)) fresh :=
  ⟨agreed_fresh, ⟨le_rfl, rfl⟩, ⟨le_rfl, rfl⟩⟩

/-! ### What is left to do -/

omit [DecidableEq Key] in
/-- An endpoint goes on with the handshake for what it sends. Assumes: it is not asked again after
it has replied. -/
theorem Reaction.length_sent_le {choice : Choice Key} {endpoint next : Option (Session Key)}
    {message : Message Key} {sent : List (Message Key)}
    (h : Reaction choice endpoint message next sent)
    (hrequest : message = .request → progress endpoint ≤ 1) :
    progress endpoint ≤ progress next ∧
      sent.length ≤ 2 * (progress next - progress endpoint) := by
  cases h with
  | ignored => simp
  | met _ _ hbefore hafter => simp [hbefore, hafter]
  | greeted hbefore hafter => simp [hbefore, hafter]
  | requested hbefore hafter =>
    have hearly := hrequest rfl
    have hone : progress endpoint = 1 := by omega
    simp [hone, hafter]
  | unsealed hbefore hafter => simp [hbefore, hafter]
  | replied hbefore hafter => simp [hbefore, hafter]
  | keyed hbefore hafter =>
    refine ⟨by omega, ?_⟩
    rw [hbefore, hafter]
    split <;> simp
  | confirmed hbefore hafter => simp [hbefore, hafter]

omit [DecidableEq Key] in
/-- What is left to do between two endpoints: the messages in flight to be received, and the places
of the handshake to be reached, at each of which two more may be sent. -/
def work (host peer : Host (Option (Session Key)) (Message Key)) : ℕ :=
  host.inbox.length + peer.inbox.length +
    3 * ((5 - progress host.party) + (5 - progress peer.party))

/-- Receiving the next message of an ordered link leaves less to do. -/
theorem Orderly.work_deliver {host peer : Host (Option (Session Key)) (Message Key)}
    {message : Message Key} (h : Orderly host peer) (hmessage : host.inbox[0]? = some message)
    (choice : Choice Key) :
    work (host.received 0 false message (receive host.party message choice).1)
      (peer.post (receive host.party message choice).2) < work host peer := by
  obtain ⟨rest, hinbox⟩ := exists_inbox_of_head hmessage
  obtain ⟨hmono, hsent⟩ := (reaction_of_receive host.party message choice).length_sent_le
    (h.awaited hinbox).1
  have hbound := progress_le_five (receive host.party message choice).1
  simp only [work, Host.received, Host.remaining, Host.post, hinbox, List.length_append,
    List.length_cons, Bool.false_eq_true, if_false, List.eraseIdx_cons_zero]
  omega

/-- Over ordered links the handshake of two endpoints is complete when nothing of it is in flight.
Assumes: it has begun. -/
theorem Orderly.connected {host peer : Host (Option (Session Key)) (Message Key)}
    (h : Orderly host peer) (hquiet : Quiet host.inbox) (hquiet' : Quiet peer.inbox)
    (hknown : 1 ≤ progress host.party ∨ 1 ≤ progress peer.party) :
    progress host.party = 5 ∧ progress peer.party = 5 := by
  have hdone : spoken peer.party - heard host.party = 0 :=
    List.range'_eq_nil_iff.mp (h.2.2.stages.symm.trans hquiet.stages_eq_nil)
  have hdone' : spoken host.party - heard peer.party = 0 :=
    List.range'_eq_nil_iff.mp (h.2.1.stages.symm.trans hquiet'.stages_eq_nil)
  have hbound := progress_le_five host.party
  have hbound' := progress_le_five peer.party
  simp only [spoken, heard] at hdone hdone'
  omega

/-! ### What lasts -/

/-- An endpoint goes on: it does not fall back behind the place it has reached, and keeps the
session keys of that place. -/
structure GoesOn (before after : Option (Session Key)) : Prop where
  place : progress before ≤ progress after
  sends : 3 ≤ progress before → tx after = tx before
  receives : 4 ≤ progress before → rx after = rx before

omit [DecidableEq Key]

theorem GoesOn.refl (endpoint : Option (Session Key)) : GoesOn endpoint endpoint :=
  ⟨le_rfl, fun _ ↦ rfl, fun _ ↦ rfl⟩

theorem GoesOn.trans {first second third : Option (Session Key)} (h : GoesOn first second)
    (h' : GoesOn second third) : GoesOn first third where
  place := h.place.trans h'.place
  sends := fun hplace ↦ (h'.sends (hplace.trans h.place)).trans (h.sends hplace)
  receives := fun hplace ↦ (h'.receives (hplace.trans h.place)).trans (h.receives hplace)

/-- An endpoint that receives a message goes on. Assumes: it is not asked again after it has
replied. -/
theorem Reaction.goesOn {choice : Choice Key} {endpoint next : Option (Session Key)}
    {message : Message Key} {sent : List (Message Key)}
    (h : Reaction choice endpoint message next sent)
    (hrequest : message = .request → progress endpoint ≤ 1) : GoesOn endpoint next := by
  cases h with
  | ignored => exact .refl endpoint
  | met _ _ hbefore hafter =>
    exact ⟨by omega, fun hplace ↦ by omega, fun hplace ↦ by omega⟩
  | greeted hbefore hafter =>
    exact ⟨by omega, fun hplace ↦ by omega, fun hplace ↦ by omega⟩
  | requested hbefore hafter =>
    have hearly := hrequest rfl
    exact ⟨by omega, fun hplace ↦ by omega, fun hplace ↦ by omega⟩
  | unsealed hbefore hafter =>
    exact ⟨by omega, fun hplace ↦ by omega, fun hplace ↦ by omega⟩
  | replied hbefore hafter =>
    exact ⟨by omega, fun hplace ↦ by omega, fun hplace ↦ by omega⟩
  | keyed hbefore hafter hown htx =>
    -- the key to send with is kept, and the one to receive with is new
    exact ⟨by omega, fun _ ↦ htx.trans hown.symm, fun hplace ↦ by omega⟩
  | confirmed hbefore hafter _ htx hrx => exact ⟨by omega, fun _ ↦ htx, fun _ ↦ hrx⟩

variable [DecidableEq Key]
  {network next : Network (Option (Session Key)) (Message Key)}

/-- A step over ordered links lets both endpoints go on. -/
theorem goesOn_of_step {Good : Side → Choice Key → Prop} {action : Action (Choice Key)}
    (horderly : ∀ side, Orderly (network side) (network side.other))
    (hstep : Network.Allowed protocol Action.Ordered Good network action next) (side : Side) :
    GoesOn (network side).party (next side).party := by
  obtain ⟨hallows, -, hstep⟩ := hstep
  obtain ⟨actor, draw, rfl, rfl⟩ | ⟨actor, draw, party, rfl, hparty, rfl⟩ |
    ⟨actor, index, keep, choice, message, party, replies, rfl, hmessage, hreceive, rfl⟩ |
    ⟨actor, index, rfl, -, rfl⟩ := Network.step_cases hstep
  · obtain rfl | rfl := Side.eq_or_eq_other side actor
    · rw [Network.pair_self]
      exact .refl _
    · rw [Network.pair_other]
      exact .refl _
  · obtain rfl := Option.some.inj hparty
    obtain rfl | rfl := Side.eq_or_eq_other side actor
    · rw [Network.pair_self]
      exact .refl _
    · rw [Network.pair_other]
      exact .refl _
  · obtain ⟨rfl, rfl⟩ : index = 0 ∧ keep = false := hallows
    obtain ⟨rfl, rfl⟩ := Prod.mk.inj (Option.some.inj hreceive)
    obtain rfl | rfl := Side.eq_or_eq_other side actor
    · obtain ⟨rest, hinbox⟩ := exists_inbox_of_head hmessage
      rw [Network.pair_self]
      exact (reaction_of_receive (network side).party message choice).goesOn
        ((horderly side).awaited hinbox).1
    · rw [Network.pair_other]
      exact .refl _
  · exact hallows.elim

/-- Over ordered links both endpoints go on. Assumes: the cryptographic calls succeed. -/
theorem goesOn_of_run {actions : List (Action (Choice Key))}
    (horderly : ∀ side, Orderly (network side) (network side.other))
    (hrun : Run (Network.Allowed protocol Action.Ordered fun _ choice ↦ choice.Works) network
      actions next) (side : Side) : GoesOn (network side).party (next side).party := by
  let start := network
  have hboth := hrun.invariant (fun network ↦
      (∀ side, Orderly (network side) (network side.other)) ∧
        ∀ side, GoesOn (start side).party (network side).party)
    (fun ⟨horderly, hgoesOn⟩ hstep ↦ ⟨orderly_preserved.step hstep horderly,
      fun side ↦ (hgoesOn side).trans (goesOn_of_step horderly hstep side)⟩)
    ⟨horderly, fun _ ↦ .refl _⟩
  exact hboth.2 side

end Kapua.Handshake
