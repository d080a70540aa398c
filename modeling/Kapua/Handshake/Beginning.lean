import Kapua.Handshake.OrderedLinks

/-!
# The beginning of the handshake

What holds over every network, whatever is lost, reordered or duplicated, of a host that has handled
no request. All it can have sent is requests, so its peer has handled nothing but these
(`Early.place`), and what is in flight from the peer is a request and then replies
(`Early.answers`). `beginning_preserved` is the invariant, for either host. A host asks only once,
before all else it sends (`Early.once`), so what is in flight from a host that has only asked and
answered can be read off at any time (`answers_of_once`).
-/

set_option autoImplicit false
set_option relaxedAutoImplicit false

namespace Kapua.Handshake

variable {Key : Type}

/-- The stages of a request that may be lost and of replies. -/
def Answers (places : List ℕ) : Prop :=
  ∃ asked again, asked ≤ 1 ∧ places = List.replicate asked 0 ++ List.replicate again 1

theorem Answers.sublist {places fewer : List ℕ} (h : Answers places)
    (hfewer : fewer.Sublist places) : Answers fewer := by
  obtain ⟨asked, again, hasked, rfl⟩ := h
  obtain ⟨front, back, rfl, hfront, hback⟩ := List.sublist_append_iff.mp hfewer
  obtain ⟨count, hcount, rfl⟩ := List.sublist_replicate_iff.mp hfront
  obtain ⟨number, -, rfl⟩ := List.sublist_replicate_iff.mp hback
  exact ⟨count, number, hcount.trans hasked, rfl⟩

/-- Where no request is behind another message, and there are only requests and replies, there is a
request at most and then there are replies. -/
theorem answers_of_once {places : List ℕ} (honce : 0 ∉ places.tail)
    (hfirst : ∀ stage ∈ places, stage ≤ 1) : Answers places := by
  cases places with
  | nil => exact ⟨0, 0, Nat.zero_le _, rfl⟩
  | cons stage rest =>
    obtain ⟨hstage, hrest⟩ := List.forall_mem_cons.mp hfirst
    have hreplies : rest = List.replicate rest.length 1 := by
      refine List.eq_replicate_iff.mpr ⟨rfl, fun later hlater ↦ ?_⟩
      have hle := hrest later hlater
      have hpos : later ≠ 0 := fun hzero ↦ honce (hzero ▸ hlater)
      omega
    obtain rfl | rfl : stage = 0 ∨ stage = 1 := by omega
    · exact ⟨1, rest.length, le_rfl, by rw [hreplies]; simp⟩
    · refine ⟨0, rest.length + 1, Nat.zero_le _, ?_⟩
      rw [List.replicate_succ, ← hreplies]
      rfl

/-- What a host that has handled no request has seen, and its peer of it.
* `unmet`: a peer that does not know the host has sent it nothing of the handshake.
* `once`: a peer sends its request before anything else of the handshake, and only once.
* `asks`: such a host has sent only requests.
* `place`: its peer has handled nothing but these.
* `answers`: its peer has sent a request and then replies. -/
structure Early (host peer : Host (Option (Session Key)) (Message Key)) : Prop where
  unmet : progress peer.party = 0 → stages host.inbox = [] ∧ progress host.party ≤ 1
  once : 0 ∉ (stages host.inbox).tail
  asks : progress host.party ≤ 1 → ∃ old, stages peer.inbox = List.replicate old 0
  place : progress host.party ≤ 1 → progress peer.party ≤ 2
  answers : progress host.party ≤ 1 → Answers (stages host.inbox)

/-- What an endpoint that has handled no request does. -/
theorem Reaction.early {choice : Choice Key} {endpoint next : Option (Session Key)}
    {message : Message Key} {sent : List (Message Key)}
    (h : Reaction choice endpoint message next sent) (hnext : progress next ≤ 1) :
    progress endpoint ≤ 1 ∧ message ≠ .request ∧ (sent = [] ∨ sent = [.request]) := by
  cases h with
  | ignored hrequest => exact ⟨hnext, hrequest, Or.inl rfl⟩
  | met hrequest _ hbefore => exact ⟨by omega, hrequest, Or.inr rfl⟩
  | greeted _ hafter => omega
  | requested _ hafter => omega
  | unsealed _ hafter => omega
  | replied _ hafter => omega
  | keyed _ hafter => omega
  | confirmed _ hafter => omega

/-- What an endpoint does with a request, or with a message outside the handshake. -/
theorem Reaction.answers {choice : Choice Key} {endpoint next : Option (Session Key)}
    {message : Message Key} {sent : List (Message Key)}
    (h : Reaction choice endpoint message next sent) (hplace : progress endpoint ≤ 2)
    (hmessage : message = .request ∨ message.stage? = none) :
    progress next ≤ 2 ∧ (1 ≤ progress endpoint ∧ (sent = [] ∨ sent = [.reply]) ∨
      progress endpoint = 0 ∧ (sent = [.request] ∨ sent = [.request, .reply])) := by
  cases h with
  | @ignored message hrequest hreply hcontext hready hknown =>
    refine ⟨hplace, Or.inl ⟨?_, Or.inl rfl⟩⟩
    rcases hknown with hknown | ⟨key, rfl⟩
    · omega
    · simp [Message.stage?] at hmessage
  | met _ _ hbefore hafter => exact ⟨by omega, Or.inr ⟨hbefore, Or.inl rfl⟩⟩
  | greeted hbefore hafter => exact ⟨by omega, Or.inr ⟨hbefore, Or.inr rfl⟩⟩
  | requested hbefore hafter => exact ⟨by omega, Or.inl ⟨by omega, Or.inr rfl⟩⟩
  | unsealed => simp [Message.stage?] at hmessage
  | replied => simp [Message.stage?] at hmessage
  | keyed => simp [Message.stage?] at hmessage
  | confirmed => simp [Message.stage?] at hmessage

/-- The stage of a message in flight. -/
theorem mem_stages {messages : List (Message Key)} {message : Message Key} {stage : ℕ}
    (h : message ∈ messages) (hstage : message.stage? = some stage) : stage ∈ stages messages :=
  List.mem_filterMap.mpr ⟨message, h, hstage⟩

/-- A message among requests is a request or no message of the handshake. -/
theorem request_of_stages {messages : List (Message Key)} {message : Message Key} {old : ℕ}
    (h : message ∈ messages) (hstages : stages messages = List.replicate old 0) :
    message = .request ∨ message.stage? = none := by
  cases hstage : message.stage? with
  | none => exact Or.inr rfl
  | some stage =>
    have hmem := mem_stages h hstage
    rw [hstages, List.mem_replicate] at hmem
    obtain ⟨-, rfl⟩ := hmem
    cases message with
    | request => exact Or.inl rfl
    | _ => simp [Message.stage?] at hstage

/-- Where no stages are in flight no message of the handshake is. -/
theorem stage_of_stages_eq_nil {messages : List (Message Key)} {message : Message Key}
    (h : message ∈ messages) (hstages : stages messages = []) : message.stage? = none := by
  cases hstage : message.stage? with
  | none => rfl
  | some stage => simpa [hstages] using mem_stages h hstage

section Deliver

variable {host peer : Host (Option (Session Key)) (Message Key)} {message : Message Key}
  {rest sent : List (Message Key)} {next : Option (Session Key)} {choice : Choice Key}
  {log : List (Option (Session Key) × Message Key)} (hmessage : message ∈ host.inbox)
  (hrest : rest.Sublist host.inbox) (hreaction : Reaction choice host.party message next sent)

include hmessage hrest hreaction

theorem Early.hear (h : Early host peer) : Early ⟨next, rest, log⟩ (peer.post sent) where
  unmet := by
    intro hpeer
    obtain ⟨hnone, hplace⟩ := h.unmet hpeer
    have hquiet := stage_of_stages_eq_nil hmessage hnone
    refine ⟨List.sublist_nil.mp (hnone ▸ hrest.filterMap Message.stage?), ?_⟩
    cases hreaction with
    | ignored => exact hplace
    | met _ _ _ hafter => exact hafter.le
    | _ => simp [Message.stage?] at hquiet
  once := fun hagain ↦ h.once ((hrest.filterMap Message.stage?).tail.subset hagain)
  asks := by
    intro hnext
    obtain ⟨hplace, -, hsent⟩ := hreaction.early hnext
    obtain ⟨old, hstages⟩ := h.asks hplace
    rcases hsent with rfl | rfl
    · exact ⟨old, by simpa [Host.post] using hstages⟩
    · exact ⟨old + 1, by simp [Host.post, hstages, Message.stage?, List.replicate_succ']⟩
  place := fun hnext ↦ h.place (hreaction.early hnext).1
  answers := fun hnext ↦ (h.answers (hreaction.early hnext).1).sublist
    (hrest.filterMap Message.stage?)

theorem Early.speak (h : Early peer host) : Early (peer.post sent) ⟨next, rest, log⟩ where
  unmet := by
    intro hnext
    change progress next = 0 at hnext
    cases hreaction with
    | ignored => simpa [Host.post] using h.unmet hnext
    | met _ _ _ hafter => omega
    | greeted _ hafter => omega
    | requested _ hafter => omega
    | unsealed _ hafter => omega
    | replied _ hafter => omega
    | keyed _ hafter => omega
    | confirmed _ hafter => omega
  once := by
    have hfirst : progress host.party = 0 → stages peer.inbox = [] := fun hzero ↦ (h.unmet hzero).1
    have hlater : ∀ {places}, 0 ∉ places → 0 ∉ (stages peer.inbox ++ places).tail := by
      intro places hplaces
      cases hstages : stages peer.inbox with
      | nil => exact fun hagain ↦ hplaces (List.mem_of_mem_tail hagain)
      | cons stage rest =>
        have honce := h.once
        rw [hstages, List.tail_cons] at honce
        simpa using ⟨honce, hplaces⟩
    show 0 ∉ (stages (peer.inbox ++ sent)).tail
    rw [stages_append]
    cases hreaction with
    | met _ _ hbefore _ => simp [hfirst hbefore, Message.stage?]
    | greeted hbefore _ => simp [hfirst hbefore, Message.stage?]
    | keyed => exact hlater (by split <;> simp [Message.stage?])
    | _ => exact hlater (by simp [Message.stage?])
  asks := by
    intro hpeer
    obtain ⟨old, hstages⟩ := h.asks hpeer
    have hfewer : (stages rest).Sublist (List.replicate old 0) :=
      hstages ▸ hrest.filterMap Message.stage?
    obtain ⟨count, -, hcount⟩ := List.sublist_replicate_iff.mp hfewer
    exact ⟨count, hcount⟩
  place := by
    intro hpeer
    obtain ⟨old, hstages⟩ := h.asks hpeer
    exact (hreaction.answers (h.place hpeer) (request_of_stages hmessage hstages)).1
  answers := by
    intro hpeer
    obtain ⟨old, hstages⟩ := h.asks hpeer
    obtain ⟨-, hsent⟩ := hreaction.answers (h.place hpeer) (request_of_stages hmessage hstages)
    simp only [Host.post, stages_append]
    rcases hsent with ⟨-, rfl | rfl⟩ | ⟨hzero, hsent⟩
    · simpa using h.answers hpeer
    · obtain ⟨asked, again, hasked, hanswers⟩ := h.answers hpeer
      exact ⟨asked, again + 1, hasked, by simp [hanswers, Message.stage?, List.replicate_succ']⟩
    · rw [(h.unmet hzero).1]
      rcases hsent with rfl | rfl
      · exact ⟨1, 0, le_rfl, rfl⟩
      · exact ⟨1, 1, le_rfl, rfl⟩

end Deliver

/-- Nothing of the handshake is in flight to the peer but requests, nor to the host but requests and
replies, and the peer has taken nothing further. -/
structure OnlyAsked (host peer : Host (Option (Session Key)) (Message Key)) : Prop where
  toPeer : ∀ stage ∈ stages peer.inbox, stage = 0
  toHost : ∀ stage ∈ stages host.inbox, stage ≤ 1
  place : progress peer.party ≤ 2

/-- A host that has handled no request has only been asked. -/
theorem Early.onlyAsked {host peer : Host (Option (Session Key)) (Message Key)}
    (h : Early host peer) (hplace : progress host.party ≤ 1) : OnlyAsked host peer where
  toPeer := by
    obtain ⟨old, hstages⟩ := h.asks hplace
    exact fun stage hstage ↦ (List.mem_replicate.mp (hstages ▸ hstage)).2
  toHost := by
    obtain ⟨asked, again, -, hstages⟩ := h.answers hplace
    intro stage hstage
    rw [hstages, List.mem_append, List.mem_replicate, List.mem_replicate] at hstage
    omega
  place := h.place hplace

/-- Either host can be the one that has handled no request. -/
def Beginning (host peer : Host (Option (Session Key)) (Message Key)) : Prop :=
  Early host peer ∧ Early peer host

theorem Early.announced {host peer : Host (Option (Session Key)) (Message Key)}
    (h : Early host peer) : Early host (peer.post [.discovery]) where
  unmet := h.unmet
  once := h.once
  asks := by simpa [Host.post, Message.stage?] using h.asks
  place := h.place
  answers := h.answers

theorem Early.announces {host peer : Host (Option (Session Key)) (Message Key)}
    (h : Early peer host) : Early (peer.post [.discovery]) host where
  unmet := by simpa [Host.post, Message.stage?] using h.unmet
  once := by simpa [Host.post, Message.stage?] using h.once
  asks := h.asks
  place := h.place
  answers := by simpa [Host.post, Message.stage?] using h.answers

/-- The beginning is an invariant over every network. -/
theorem beginning_preserved [DecidableEq Key] (allows : Action Unit → Prop)
    (Good : Side → Choice Key → Prop) :
    Preserved protocol allows Good Beginning where
  symm := And.symm
  announce := fun _ h ↦ ⟨h.1.announced, h.2.announces⟩
  internal := fun _ hparty h ↦ internal_preserved hparty h
  deliver := by
    intro side index keep choice host peer message party replies _ _ hmessage hreceive h
    obtain ⟨rfl, rfl⟩ := Prod.mk.inj (Option.some.inj hreceive)
    have hreaction := reaction_of_receive host.party message choice
    have hrest : (host.remaining index keep).Sublist host.inbox := by
      cases keep with
      | true => exact List.Sublist.refl _
      | false => exact List.eraseIdx_sublist ..
    have hmem := List.mem_of_getElem? hmessage
    exact ⟨h.1.hear hmem hrest hreaction, h.2.speak hmem hrest hreaction⟩
  lose := by
    intro side index host peer _ h
    have hsublist : (stages (host.drop index).inbox).Sublist (stages host.inbox) :=
      (List.eraseIdx_sublist ..).filterMap _
    refine ⟨⟨?_, fun hagain ↦ h.1.once (hsublist.tail.subset hagain), h.1.asks, h.1.place, ?_⟩,
      ⟨h.2.unmet, h.2.once, ?_, h.2.place, h.2.answers⟩⟩
    · intro hpeer
      obtain ⟨hnone, hplace⟩ := h.1.unmet hpeer
      exact ⟨List.sublist_nil.mp (hnone ▸ hsublist), hplace⟩
    · exact fun hplace ↦ (h.1.answers hplace).sublist hsublist
    · intro hpeer
      obtain ⟨old, hstages⟩ := h.2.asks hpeer
      obtain ⟨count, -, hcount⟩ := List.sublist_replicate_iff.mp (hstages ▸ hsublist)
      exact ⟨count, hcount⟩

theorem beginning_fresh : Beginning (fresh : Host (Option (Session Key)) (Message Key)) fresh := by
  have hearly : Early (fresh : Host (Option (Session Key)) (Message Key)) fresh :=
    ⟨by simp [fresh], by simp [fresh], fun _ ↦ ⟨0, rfl⟩, by simp [fresh],
      fun _ ↦ ⟨0, 0, Nat.zero_le _, rfl⟩⟩
  exact ⟨hearly, hearly⟩

end Kapua.Handshake
