import Kapua.Handshake.Protocol

/-!
# Agreement when no message is duplicated

Over a network that loses and reorders but does not duplicate, each message of the handshake is sent
at most once, so the ones in flight can be counted against what the two endpoints have reached.
`Agrees` does that for the messages of one host: its request turns into a reply and then into a
session key it has sent; the session key in flight, and the one the peer received, is the one it
sends with; and so on to the message that confirms it. `Effect` says what a reaction adds to either
side of these counts, and with it every count is linear arithmetic.

`agreed_keys` is what they are for: an endpoint that is connected has a peer that has received its
session key, and the two pairs of session keys agree.
-/

set_option autoImplicit false
set_option relaxedAutoImplicit false

namespace Kapua.Handshake

variable {Key : Type}

/-- One if the endpoint has reached a place in the handshake, otherwise zero. -/
def reached (place : ℕ) (endpoint : Option (Session Key)) : ℕ :=
  if place ≤ progress endpoint then 1 else 0

theorem reached_eq_one_iff {place : ℕ} {endpoint : Option (Session Key)} :
    reached place endpoint = 1 ↔ place ≤ progress endpoint := by
  simp [reached]

theorem reached_le_one (place : ℕ) (endpoint : Option (Session Key)) :
    reached place endpoint ≤ 1 := by
  unfold reached
  split_ifs <;> simp

variable [DecidableEq Key]

/-- What a reaction adds to what the endpoint has reached and to what is in flight, and which keys
it uses. -/
structure Effect (endpoint : Option (Session Key)) (message : Message Key)
    (next : Option (Session Key)) (sent : List (Message Key)) : Prop where
  requests : requests sent + reached 1 endpoint = reached 1 next
  replies : replies sent = if message = .request then 1 else 0
  contexts : (contexts sent).length + reached 3 endpoint = reached 3 next
  readys : (readys sent).length + reached 4 endpoint ≤ reached 4 next
  exchanged : reached 2 next ≤ reached 2 endpoint + if message = .request then 1 else 0
  shaken : reached 3 next ≤ reached 3 endpoint + if message = .reply then 1 else 0
  checked : reached 4 next ≤ reached 4 endpoint + message.context?.toList.length
  connected : reached 5 next ≤ reached 5 endpoint + message.ready?.toList.length
  tx : 3 ≤ progress endpoint → tx next = tx endpoint
  rx : 4 ≤ progress next → 4 ≤ progress endpoint ∧ rx next = rx endpoint ∨
    ∃ key, message.context? = some key ∧ rx next = some key
  context : ∀ key ∈ Handshake.contexts sent, Handshake.tx next = some key
  ready : ∀ key ∈ Handshake.readys sent, Handshake.tx next = some key

/-- Every reaction has these effects. Assumes: a request comes before the endpoint has sent a
session key. -/
theorem Reaction.effect {choice : Choice Key} {endpoint next : Option (Session Key)}
    {message : Message Key} {sent : List (Message Key)}
    (h : Reaction choice endpoint message next sent)
    (hrequest : message = .request → progress endpoint ≤ 2) :
    Effect endpoint message next sent := by
  cases h with
  | ignored hother =>
    constructor <;> simp [hother]
    exact fun hle ↦ Or.inl hle
  | met hother hready hbefore hafter =>
    constructor <;> simp [hother, reached, hbefore, hafter, Message.context?, Message.ready?]
  | greeted hbefore hafter =>
    constructor <;> simp [reached, hbefore, hafter, Message.context?, Message.ready?]
  | requested hbefore hafter htx hrx =>
    have hle := hrequest rfl
    have hplace : progress endpoint = 1 ∨ progress endpoint = 2 := by omega
    rcases hplace with hone | htwo
    · constructor <;> simp [reached, hone, hafter, Message.context?, Message.ready?]
    · constructor <;> simp [reached, htwo, hafter, Message.context?, Message.ready?]
  | unsealed hbefore hafter hrx =>
    constructor <;> simp [reached, hbefore, hafter, Message.context?, Message.ready?]
  | replied hbefore hafter htx hrx =>
    constructor <;> simp [reached, hbefore, hafter, Message.context?, Message.ready?, htx]
  | keyed hbefore hafter hown htx hrx =>
    constructor <;> cases choice.seals <;>
      simp [reached, hbefore, hafter, Message.context?, Message.ready?, hown, htx, hrx]
  | confirmed hbefore hafter hkey htx hrx =>
    constructor <;>
      simp [reached, hbefore, hafter, Message.context?, Message.ready?, htx, hrx]

omit [DecidableEq Key] in
/-- The session key in the messages of `host`, and the one the peer received, is the one it sends
with. -/
structure Carries (host peer : Host (Option (Session Key)) (Message Key)) : Prop where
  context : ∀ key ∈ contexts peer.inbox, tx host.party = some key
  keyed : 4 ≤ progress peer.party → rx peer.party = tx host.party
  ready : ∀ key ∈ readys peer.inbox, tx host.party = some key

/-- The messages of `host` are where the two endpoints say.
* `asked`: its request is in flight, or the reply to it is, or it has a session key to send.
* `answered`: its request is in flight, or the peer has handled it.
* `sentContext` and `sentReady`: the message is in flight, or the peer has handled it, and neither
  before it was sent. -/
structure Agrees (host peer : Host (Option (Session Key)) (Message Key)) : Prop
    extends Carries host peer where
  asked : requests peer.inbox + replies host.inbox + reached 3 host.party ≤ reached 1 host.party
  answered : requests peer.inbox + reached 2 peer.party ≤ reached 1 host.party
  sentContext : (contexts peer.inbox).length + reached 4 peer.party ≤ reached 3 host.party
  sentReady : (readys peer.inbox).length + reached 5 peer.party ≤ reached 4 host.party

/-- What is in flight, split at the message that is taken out. -/
structure Taken (messages : List (Message Key)) (message : Message Key)
    (rest : List (Message Key)) : Prop where
  requests : requests messages = requests rest + if message = .request then 1 else 0
  replies : replies messages = replies rest + if message = .reply then 1 else 0
  contexts : (contexts messages).length = message.context?.toList.length + (contexts rest).length
  readys : (readys messages).length = message.ready?.toList.length + (readys rest).length
  context : ∀ key, message.context? = some key ∨ key ∈ Handshake.contexts rest →
    key ∈ Handshake.contexts messages
  ready : ∀ key, message.ready? = some key ∨ key ∈ Handshake.readys rest →
    key ∈ Handshake.readys messages

theorem taken_of_perm {messages rest : List (Message Key)} {message : Message Key}
    (h : messages.Perm (message :: rest)) : Taken messages message rest where
  requests := by
    rw [← requests_cons]
    exact h.count_eq _
  replies := by
    rw [← replies_cons]
    exact h.count_eq _
  contexts := by
    have hlength := (h.filterMap Message.context?).length_eq
    rw [← contexts, ← contexts, contexts_cons, List.length_append] at hlength
    exact hlength
  readys := by
    have hlength := (h.filterMap Message.ready?).length_eq
    rw [← readys, ← readys, readys_cons, List.length_append] at hlength
    exact hlength
  context := by
    intro key hkey
    refine (h.filterMap Message.context?).mem_iff.mpr ?_
    rw [← contexts, contexts_cons, List.mem_append, Option.mem_toList]
    exact hkey
  ready := by
    intro key hkey
    refine (h.filterMap Message.ready?).mem_iff.mpr ?_
    rw [← readys, readys_cons, List.mem_append, Option.mem_toList]
    exact hkey

section Deliver

variable {host peer : Host (Option (Session Key)) (Message Key)} {message : Message Key}
  {rest sent : List (Message Key)} {next : Option (Session Key)}
  {log : List (Option (Session Key) × Message Key)}
  (htaken : Taken host.inbox message rest) (heffect : Effect host.party message next sent)

include htaken heffect

omit htaken in
/-- A host that receives a message sends the session key it sends with. Assumes: it was chosen
before it was sent. -/
theorem Carries.speak (h : Carries host peer)
    (hchosen : contexts peer.inbox ≠ [] ∨ readys peer.inbox ≠ [] ∨ 4 ≤ progress peer.party →
      3 ≤ progress host.party) : Carries ⟨next, rest, log⟩ (peer.post sent) where
  context := by
    intro key hkey
    rw [Host.post, contexts_append, List.mem_append] at hkey
    rcases hkey with hold | hnew
    · rw [heffect.tx (hchosen (Or.inl (List.ne_nil_of_mem hold)))]
      exact h.context key hold
    · exact heffect.context key hnew
  keyed := by
    intro hpeer
    rw [heffect.tx (hchosen (Or.inr (Or.inr hpeer)))]
    exact h.keyed hpeer
  ready := by
    intro key hkey
    rw [Host.post, readys_append, List.mem_append] at hkey
    rcases hkey with hold | hnew
    · rw [heffect.tx (hchosen (Or.inr (Or.inl (List.ne_nil_of_mem hold))))]
      exact h.ready key hold
    · exact heffect.ready key hnew

/-- A host that receives a message has the session key its peer sends with. -/
theorem Carries.hear (h : Carries peer host) : Carries (peer.post sent) ⟨next, rest, log⟩ where
  context := fun key hkey ↦ h.context key (htaken.context key (Or.inr hkey))
  keyed := by
    intro hnext
    rcases heffect.rx hnext with ⟨hbefore, hrx⟩ | ⟨key, hkey, hrx⟩
    · rw [hrx]
      exact h.keyed hbefore
    · rw [hrx]
      exact (h.context key (htaken.context key (Or.inl hkey))).symm
  ready := fun key hkey ↦ h.ready key (htaken.ready key (Or.inr hkey))

omit htaken heffect in
/-- A session key is chosen before it is sent. -/
theorem Agrees.chosen (h : Agrees host peer)
    (hsent : contexts peer.inbox ≠ [] ∨ readys peer.inbox ≠ [] ∨ 4 ≤ progress peer.party) :
    3 ≤ progress host.party := by
  have hcontext := h.sentContext
  have hready := h.sentReady
  have hshaken := reached_le_one 3 host.party
  have hchecked := reached_le_one 4 host.party
  rcases hsent with hcontexts | hreadys | hpeer
  · have hpos := List.length_pos_of_ne_nil hcontexts
    exact reached_eq_one_iff.mp (by omega)
  · have hpos := List.length_pos_of_ne_nil hreadys
    exact le_trans (by decide) (reached_eq_one_iff.mp (by omega : reached 4 host.party = 1))
  · have hone := reached_eq_one_iff.mpr hpeer
    exact reached_eq_one_iff.mp (by omega)

/-- A host that receives a message keeps its own messages where the endpoints say. -/
theorem Agrees.speak (h : Agrees host peer) : Agrees ⟨next, rest, log⟩ (peer.post sent) where
  toCarries := h.toCarries.speak heffect h.chosen
  asked := by
    have hasked := h.asked
    have hreplies := htaken.replies
    have hrequests := heffect.requests
    have hshaken := heffect.shaken
    simp only [Host.post, requests_append]
    omega
  answered := by
    have hanswered := h.answered
    have hrequests := heffect.requests
    simp only [Host.post, requests_append]
    omega
  sentContext := by
    have hcontext := h.sentContext
    have hcontexts := heffect.contexts
    simp only [Host.post, contexts_append, List.length_append]
    omega
  sentReady := by
    have hready := h.sentReady
    have hreadys := heffect.readys
    simp only [Host.post, readys_append, List.length_append]
    omega

/-- A host that receives a message keeps its peer's messages where the endpoints say. -/
theorem Agrees.hear (h : Agrees peer host) : Agrees (peer.post sent) ⟨next, rest, log⟩ where
  toCarries := h.toCarries.hear htaken heffect
  asked := by
    have hasked := h.asked
    have hrequests := htaken.requests
    have hreplies := heffect.replies
    simp only [Host.post, replies_append]
    omega
  answered := by
    have hanswered := h.answered
    have hrequests := htaken.requests
    have hexchanged := heffect.exchanged
    simp only [Host.post]
    omega
  sentContext := by
    have hcontext := h.sentContext
    have hcontexts := htaken.contexts
    have hchecked := heffect.checked
    simp only [Host.post]
    omega
  sentReady := by
    have hready := h.sentReady
    have hreadys := htaken.readys
    have hconnected := heffect.connected
    simp only [Host.post]
    omega

end Deliver

omit [DecidableEq Key] in
/-- With no other session keys in flight, the session keys in flight are still the sender's. -/
theorem Carries.mono {host peer host' peer' : Host (Option (Session Key)) (Message Key)}
    (h : Carries host peer) (hhost : host'.party = host.party) (hpeer : peer'.party = peer.party)
    (hcontexts : contexts peer'.inbox ⊆ contexts peer.inbox)
    (hreadys : readys peer'.inbox ⊆ readys peer.inbox) : Carries host' peer' where
  context := by
    intro key hkey
    rw [hhost]
    exact h.context key (hcontexts hkey)
  keyed := by
    rw [hhost, hpeer]
    exact h.keyed
  ready := by
    intro key hkey
    rw [hhost]
    exact h.ready key (hreadys hkey)

/-- Losing messages keeps the rest where the endpoints say. -/
theorem Agrees.mono {host peer host' peer' : Host (Option (Session Key)) (Message Key)}
    (h : Agrees host peer) (hhost : host'.party = host.party) (hpeer : peer'.party = peer.party)
    (hhostInbox : host'.inbox.Sublist host.inbox) (hpeerInbox : peer'.inbox.Sublist peer.inbox) :
    Agrees host' peer' where
  toCarries := h.toCarries.mono hhost hpeer (hpeerInbox.filterMap _).subset
    (hpeerInbox.filterMap _).subset
  asked := by
    have hasked := h.asked
    have hrequests : requests peer'.inbox ≤ requests peer.inbox := hpeerInbox.count_le _
    have hreplies : replies host'.inbox ≤ replies host.inbox := hhostInbox.count_le _
    rw [hhost]
    omega
  answered := by
    have hanswered := h.answered
    have hrequests : requests peer'.inbox ≤ requests peer.inbox := hpeerInbox.count_le _
    rw [hhost, hpeer]
    omega
  sentContext := by
    have hcontext := h.sentContext
    have hcontexts : (contexts peer'.inbox).length ≤ (contexts peer.inbox).length :=
      (hpeerInbox.filterMap _).length_le
    rw [hhost, hpeer]
    omega
  sentReady := by
    have hready := h.sentReady
    have hreadys : (readys peer'.inbox).length ≤ (readys peer.inbox).length :=
      (hpeerInbox.filterMap _).length_le
    rw [hhost, hpeer]
    omega

/-- Both hosts' messages are where the endpoints say. -/
def Agreed (host peer : Host (Option (Session Key)) (Message Key)) : Prop :=
  Agrees host peer ∧ Agrees peer host

/-- A request in flight to a host was not handled before. -/
theorem Agreed.progress_le_one {host peer : Host (Option (Session Key)) (Message Key)}
    (h : Agreed host peer) (hrequest : 0 < requests host.inbox) : progress host.party ≤ 1 := by
  have hanswered := h.2.answered
  have hle := reached_le_one 1 peer.party
  have hnot : ¬ reached 2 host.party = 1 := by omega
  rw [reached_eq_one_iff] at hnot
  omega

/-- Receiving a message and not keeping a copy in flight preserves the agreement. -/
theorem Agreed.deliver {host peer : Host (Option (Session Key)) (Message Key)} {index : ℕ}
    {message : Message Key} (h : Agreed host peer) (hmessage : host.inbox[index]? = some message)
    (choice : Choice Key) :
    Agreed (host.received index false message (receive host.party message choice).1)
      (peer.post (receive host.party message choice).2) := by
  have htaken : Taken host.inbox message (host.inbox.eraseIdx index) :=
    taken_of_perm (perm_eraseIdx hmessage)
  have heffect := (reaction_of_receive host.party message choice).effect (by
    rintro rfl
    refine (h.progress_le_one ?_).trans (by decide)
    have hrequests := htaken.requests
    rw [if_pos rfl] at hrequests
    omega)
  exact ⟨h.1.speak htaken heffect, h.2.hear htaken heffect⟩

/-- Discovery is no message of the handshake. -/
theorem Agrees.announced {host peer : Host (Option (Session Key)) (Message Key)}
    (h : Agrees host peer) : Agrees host (peer.post [.discovery]) where
  toCarries := h.toCarries.mono rfl rfl (by simp [Host.post, Message.context?])
    (by simp [Host.post, Message.ready?])
  asked := by simpa [Host.post] using h.asked
  answered := by simpa [Host.post] using h.answered
  sentContext := by simpa [Host.post, Message.context?] using h.sentContext
  sentReady := by simpa [Host.post, Message.ready?] using h.sentReady

theorem Agrees.announces {host peer : Host (Option (Session Key)) (Message Key)}
    (h : Agrees peer host) : Agrees (peer.post [.discovery]) host where
  toCarries := h.toCarries.mono rfl rfl (List.Subset.refl _) (List.Subset.refl _)
  asked := by simpa [Host.post] using h.asked
  answered := h.answered
  sentContext := h.sentContext
  sentReady := h.sentReady

/-- Agreement is an invariant over a network that does not duplicate. -/
theorem agreed_preserved (Good : Side → Choice Key → Prop) :
    Preserved protocol Action.AtMostOnce Good Agreed where
  symm := fun h ↦ ⟨h.2, h.1⟩
  announce := by
    intro side choice host peer _ h
    exact ⟨h.1.announced, h.2.announces⟩
  internal := fun _ hparty h ↦ internal_preserved hparty h
  deliver := by
    intro side index keep choice host peer message party replies hkeep _ hmessage hreceive h
    obtain rfl : keep = false := hkeep
    obtain ⟨rfl, rfl⟩ := Prod.mk.inj (Option.some.inj hreceive)
    exact h.deliver hmessage choice
  lose := by
    intro side index host peer _ h
    have hsublist : (host.drop index).inbox.Sublist host.inbox := List.eraseIdx_sublist ..
    exact ⟨h.1.mono rfl rfl hsublist (List.Sublist.refl _),
      h.2.mono rfl rfl (List.Sublist.refl _) hsublist⟩

/-- An endpoint that is connected has a peer that has received its session key, and each receives
with the session key the other sends with. -/
theorem agreed_keys {host peer : Host (Option (Session Key)) (Message Key)}
    (h : Agreed host peer) (hconnected : progress host.party = 5) :
    4 ≤ progress peer.party ∧ rx peer.party = tx host.party ∧ rx host.party = tx peer.party := by
  have hpeer : 4 ≤ progress peer.party := by
    rw [← reached_eq_one_iff]
    have hready := h.2.sentReady
    have hle := reached_le_one 4 peer.party
    have hfive : reached 5 host.party = 1 := reached_eq_one_iff.mpr hconnected.ge
    omega
  exact ⟨hpeer, h.1.keyed hpeer, h.2.keyed (by omega)⟩

theorem agreed_fresh : Agreed (fresh : Host (Option (Session Key)) (Message Key)) fresh := by
  have hagrees : Agrees (fresh : Host (Option (Session Key)) (Message Key)) fresh := by
    refine ⟨⟨?_, ?_, ?_⟩, ?_, ?_, ?_, ?_⟩ <;> simp [fresh, reached]
  exact ⟨hagrees, hagrees⟩

end Kapua.Handshake
