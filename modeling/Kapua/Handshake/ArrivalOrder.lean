import Kapua.Handshake.Agreement

/-!
# The handshake in any order of arrival

Over a network that delivers every message once but in any order, a message that overtakes another
can reach an endpoint one step too early. The endpoint drops it and nobody sends it again. `Timely`
says that this never happened. As long as it has not, the counts of `Agrees` are equations
(`Settles`), and with nothing in flight both endpoints are connected; once it has, one of them is
strict for good (`Stalled`), and the endpoint on its small side is never connected.
-/

set_option autoImplicit false
set_option relaxedAutoImplicit false

namespace Kapua.Handshake

variable {Key : Type}

/-- An endpoint in the state in which it has use for the message. -/
def InTime (endpoint : Option (Session Key)) : Message Key → Prop
  | .discovery => True
  | .request => True
  | .reply => progress endpoint = 2
  | .context _ => progress endpoint = 3
  | .ready _ => progress endpoint = 4

/-- Every message arrived in time. -/
def Timely (host : Host (Option (Session Key)) (Message Key)) : Prop :=
  ∀ entry ∈ host.log, InTime entry.1 entry.2

/-- A message that is not in time is not handled. -/
theorem Reaction.not_inTime {choice : Choice Key} {endpoint next : Option (Session Key)}
    {message : Message Key} {sent : List (Message Key)}
    (h : Reaction choice endpoint message next sent) (htime : ¬ InTime endpoint message) :
    reached 3 next = reached 3 endpoint ∧ reached 4 next = reached 4 endpoint ∧
      reached 5 next = reached 5 endpoint := by
  cases h with
  | ignored => exact ⟨rfl, rfl, rfl⟩
  | met _ _ hbefore hafter => simp [reached, hbefore, hafter]
  | greeted => exact absurd trivial htime
  | requested => exact absurd trivial htime
  | unsealed hbefore => exact absurd hbefore htime
  | replied hbefore => exact absurd hbefore htime
  | keyed hbefore => exact absurd hbefore htime
  | confirmed hbefore => exact absurd hbefore htime

variable [DecidableEq Key]

/-- Each message of `host` is in flight or was handled. -/
structure Settles (host peer : Host (Option (Session Key)) (Message Key)) : Prop where
  request : requests peer.inbox + reached 2 peer.party = reached 1 host.party
  reply : replies peer.inbox + reached 3 peer.party = reached 2 host.party
  context : (contexts peer.inbox).length + reached 4 peer.party = reached 3 host.party
  ready : (readys peer.inbox).length + reached 5 peer.party = reached 4 host.party

/-- A message that `host` needs is neither in flight nor was it handled. -/
def Stalled (host peer : Host (Option (Session Key)) (Message Key)) : Prop :=
  requests peer.inbox + replies host.inbox + reached 3 host.party < reached 1 host.party ∨
    (contexts host.inbox).length + reached 4 host.party < reached 3 peer.party ∨
    (readys host.inbox).length + reached 5 host.party < reached 4 peer.party

/-- What a reaction to a message in time adds, exactly. -/
structure Advance (endpoint : Option (Session Key)) (message : Message Key)
    (next : Option (Session Key)) (sent : List (Message Key)) : Prop where
  replies : replies sent + reached 2 endpoint = reached 2 next
  readys : (readys sent).length + reached 4 endpoint = reached 4 next
  exchanged : reached 2 next = reached 2 endpoint + if message = .request then 1 else 0
  shaken : reached 3 next = reached 3 endpoint + if message = .reply then 1 else 0
  checked : reached 4 next = reached 4 endpoint + message.context?.toList.length
  connected : reached 5 next = reached 5 endpoint + message.ready?.toList.length

/-- A message in time makes its endpoint advance. Assumes: the cryptographic calls succeed, a
request comes first, and a message is encrypted with the session key the endpoint received. -/
theorem Reaction.advance {choice : Choice Key} (hworks : choice.Works)
    {endpoint next : Option (Session Key)} {message : Message Key} {sent : List (Message Key)}
    (h : Reaction choice endpoint message next sent) (htime : InTime endpoint message)
    (hrequest : message = .request → progress endpoint ≤ 1)
    (hkey : ∀ key, message = .ready key → rx endpoint = some key) :
    Advance endpoint message next sent := by
  cases h with
  | ignored hother hnoreply hnocontext hnoready =>
    cases message with
    | discovery => constructor <;> simp [Message.context?, Message.ready?]
    | request => exact absurd rfl hother
    | reply => exact absurd htime (hnoreply rfl)
    | context key =>
      rcases hnocontext key rfl with hplace | hfails
      · exact absurd htime hplace
      · exact absurd (hworks.decrypts.symm.trans hfails) (by simp)
    | ready key =>
      rcases hnoready key rfl with hplace | hother
      · exact absurd htime hplace
      · exact absurd (hkey key rfl) hother
  | met hother hnoready hbefore hafter =>
    cases message with
    | discovery =>
      constructor <;> simp [reached, hbefore, hafter, Message.context?, Message.ready?]
    | request => exact absurd rfl hother
    | reply => exact absurd (hbefore.symm.trans htime) (by simp)
    | context key => exact absurd (hbefore.symm.trans htime) (by simp)
    | ready key => exact absurd rfl (hnoready key)
  | greeted hbefore hafter =>
    constructor <;> simp [reached, hbefore, hafter, Message.context?, Message.ready?]
  | requested hbefore hafter =>
    have hone : progress endpoint = 1 := by
      have := hrequest rfl
      omega
    constructor <;> simp [reached, hone, hafter, Message.context?, Message.ready?]
  | unsealed _ _ _ hfails => exact absurd (hworks.encrypts.symm.trans hfails) (by simp)
  | replied hbefore hafter =>
    constructor <;> simp [reached, hbefore, hafter, Message.context?, Message.ready?]
  | keyed hbefore hafter =>
    constructor <;>
      simp [reached, hbefore, hafter, Message.context?, Message.ready?, hworks.seals]
  | confirmed hbefore hafter =>
    constructor <;> simp [reached, hbefore, hafter, Message.context?, Message.ready?]

section Deliver

variable {host peer : Host (Option (Session Key)) (Message Key)} {message : Message Key}
  {rest sent : List (Message Key)} {next : Option (Session Key)}
  {log : List (Option (Session Key) × Message Key)}
  (htaken : Taken host.inbox message rest) (heffect : Effect host.party message next sent)

include htaken heffect

/-- Messages in time keep every message accounted for. -/
theorem settles_of_advance (hadvance : Advance host.party message next sent)
    (hhost : Settles host peer) (hpeer : Settles peer host) :
    Settles ⟨next, rest, log⟩ (peer.post sent) ∧ Settles (peer.post sent) ⟨next, rest, log⟩ := by
  obtain ⟨hrequest, hreply, hcontext, hready⟩ := hhost
  obtain ⟨hpeerRequest, hpeerReply, hpeerContext, hpeerReady⟩ := hpeer
  have hrequests := htaken.requests
  have hreplies := htaken.replies
  have hcontexts := htaken.contexts
  have hreadys := htaken.readys
  refine ⟨⟨?_, ?_, ?_, ?_⟩, ⟨?_, ?_, ?_, ?_⟩⟩ <;>
    simp only [Host.post, requests_append, replies_append, contexts_append, readys_append,
      List.length_append]
  · have := heffect.requests
    omega
  · have := hadvance.replies
    omega
  · have := heffect.contexts
    omega
  · have := hadvance.readys
    omega
  · have := hadvance.exchanged
    omega
  · have := hadvance.shaken
    omega
  · have := hadvance.checked
    omega
  · have := hadvance.connected
    omega

/-- A message that is gone stays gone, for the host that acts. -/
theorem Stalled.hear (h : Stalled host peer) : Stalled ⟨next, rest, log⟩ (peer.post sent) := by
  rcases h with hasked | hcontext | hready
  · left
    have hreplies := htaken.replies
    have hrequests := heffect.requests
    have hshaken := heffect.shaken
    simp only [Host.post, requests_append]
    omega
  · right; left
    have hcontexts := htaken.contexts
    have hchecked := heffect.checked
    simp only [Host.post]
    omega
  · right; right
    have hreadys := htaken.readys
    have hconnected := heffect.connected
    simp only [Host.post]
    omega

/-- A message that is gone stays gone, for the peer of the host that acts. -/
theorem Stalled.speak (h : Stalled peer host) : Stalled (peer.post sent) ⟨next, rest, log⟩ := by
  rcases h with hasked | hcontext | hready
  · left
    have hrequests := htaken.requests
    have hreplies := heffect.replies
    simp only [Host.post, replies_append]
    omega
  · right; left
    have hcontexts := heffect.contexts
    simp only [Host.post, contexts_append, List.length_append]
    omega
  · right; right
    have hreadys := heffect.readys
    simp only [Host.post, readys_append, List.length_append]
    omega

/-- A message that is not in time is gone. -/
theorem stalled_of_not_inTime {choice : Choice Key}
    (h : Reaction choice host.party message next sent) (htime : ¬ InTime host.party message)
    (hagreed : Agreed host peer) : Stalled ⟨next, rest, log⟩ (peer.post sent) := by
  obtain ⟨hshaken, hchecked, hconnected⟩ := h.not_inTime htime
  cases message with
  | discovery => exact absurd trivial htime
  | request => exact absurd trivial htime
  | reply =>
    left
    have hasked := hagreed.1.asked
    have hreplies := htaken.replies
    have hrequests := heffect.requests
    rw [if_pos rfl] at hreplies
    simp only [Host.post, requests_append]
    omega
  | context key =>
    right; left
    have hcontext := hagreed.2.sentContext
    have hcontexts := htaken.contexts
    have hone : (Message.context key).context?.toList.length = 1 := rfl
    simp only [Host.post]
    omega
  | ready key =>
    right; right
    have hready := hagreed.2.sentReady
    have hreadys := htaken.readys
    have hone : (Message.ready key).ready?.toList.length = 1 := rfl
    simp only [Host.post]
    omega

end Deliver

/-- The two endpoints agree, and either every message is accounted for or one is gone, as the
messages arrived in time or not. -/
structure Accounted (host peer : Host (Option (Session Key)) (Message Key)) : Prop where
  agreed : Agreed host peer
  settles : Timely host ∧ Timely peer → Settles host peer ∧ Settles peer host
  stalled : ¬ (Timely host ∧ Timely peer) → Stalled host peer ∨ Stalled peer host

/-- Receiving a message and not keeping a copy in flight keeps the account. -/
theorem Accounted.deliver {host peer : Host (Option (Session Key)) (Message Key)} {index : ℕ}
    {message : Message Key} (h : Accounted host peer)
    (hmessage : host.inbox[index]? = some message) {choice : Choice Key} (hworks : choice.Works) :
    Accounted (host.received index false message (receive host.party message choice).1)
      (peer.post (receive host.party message choice).2) := by
  have htaken : Taken host.inbox message (host.inbox.eraseIdx index) :=
    taken_of_perm (perm_eraseIdx hmessage)
  have hreaction := reaction_of_receive host.party message choice
  have hrequest : message = .request → progress host.party ≤ 1 := by
    rintro rfl
    refine h.agreed.progress_le_one ?_
    have hrequests := htaken.requests
    rw [if_pos rfl] at hrequests
    omega
  have heffect := hreaction.effect fun heq ↦ (hrequest heq).trans (by decide)
  have htimely : Timely (host.received index false message (receive host.party message choice).1) ↔
      Timely host ∧ InTime host.party message := by
    simp [Timely, Host.received, or_imp, forall_and]
  refine ⟨h.agreed.deliver hmessage choice, fun ⟨hhost, hpeer⟩ ↦ ?_, fun hlate ↦ ?_⟩
  · obtain ⟨hhost, hnow⟩ := htimely.mp hhost
    obtain ⟨hsettles, hpeerSettles⟩ := h.settles ⟨hhost, hpeer⟩
    refine settles_of_advance htaken heffect (hreaction.advance hworks hnow hrequest ?_) hsettles
      hpeerSettles
    rintro key rfl
    have hplace : progress host.party = 4 := hnow
    rw [h.agreed.2.keyed hplace.ge]
    exact h.agreed.2.ready key (htaken.ready key (Or.inl rfl))
  · by_cases hearlier : Timely host ∧ Timely peer
    · have hnow : ¬ InTime host.party message :=
        fun hnow ↦ hlate ⟨htimely.mpr ⟨hearlier.1, hnow⟩, hearlier.2⟩
      exact Or.inl (stalled_of_not_inTime htaken heffect hreaction hnow h.agreed)
    · rcases h.stalled hearlier with hstalled | hstalled
      · exact Or.inl (hstalled.hear htaken heffect)
      · exact Or.inr (hstalled.speak htaken heffect)

/-- The account is an invariant over a network that neither loses nor duplicates. Assumes: the
cryptographic calls succeed. -/
theorem accounted_preserved :
    Preserved (protocol : Side → Program (Option (Session Key)) (Message Key) (Choice Key))
      Action.ExactlyOnce (fun _ choice ↦ choice.Works) Accounted where
  symm := fun h ↦ ⟨⟨h.agreed.2, h.agreed.1⟩, fun ⟨hhost, hpeer⟩ ↦ (h.settles ⟨hpeer, hhost⟩).symm,
    fun hlate ↦ (h.stalled fun ⟨hhost, hpeer⟩ ↦ hlate ⟨hpeer, hhost⟩).symm⟩
  announce := by
    intro side choice host peer hgood h
    refine ⟨(agreed_preserved fun _ choice ↦ choice.Works).announce hgood h.agreed,
      fun htimely ↦ ?_, fun hlate ↦ ?_⟩
    · obtain ⟨hsettles, hpeerSettles⟩ := h.settles htimely
      refine ⟨⟨?_, ?_, ?_, ?_⟩, ⟨hpeerSettles.request, hpeerSettles.reply, hpeerSettles.context,
        hpeerSettles.ready⟩⟩
      · simpa [Host.post, protocol] using hsettles.request
      · simpa [Host.post, protocol] using hsettles.reply
      · simpa [Host.post, protocol, Message.context?] using hsettles.context
      · simpa [Host.post, protocol, Message.ready?] using hsettles.ready
    · simpa [Stalled, Host.post, protocol, Message.context?, Message.ready?] using h.stalled hlate
  internal := fun _ hparty h ↦ internal_preserved hparty h
  deliver := by
    intro side index keep choice host peer message party replies hkeep hworks hmessage hreceive h
    obtain rfl : keep = false := hkeep
    obtain ⟨rfl, rfl⟩ := Prod.mk.inj (Option.some.inj hreceive)
    exact h.deliver hmessage hworks
  lose := fun hallowed ↦ hallowed.elim

theorem accounted_fresh : Accounted (fresh : Host (Option (Session Key)) (Message Key)) fresh where
  agreed := agreed_fresh
  settles := fun _ ↦ ⟨⟨rfl, rfl, rfl, rfl⟩, ⟨rfl, rfl, rfl, rfl⟩⟩
  stalled := fun hlate ↦ absurd ⟨by simp [Timely, fresh], by simp [Timely, fresh]⟩ hlate

/-- With nothing in flight every count is zero. -/
theorem Quiet.counts {messages : List (Message Key)} (h : Quiet messages) :
    requests messages = 0 ∧ replies messages = 0 ∧ (contexts messages).length = 0 ∧
      (readys messages).length = 0 := by
  induction messages with
  | nil => simp
  | cons message rest ih =>
    obtain rfl := h message (List.mem_cons_self ..)
    have hrest := ih fun other hother ↦ h other (List.mem_cons_of_mem _ hother)
    simpa [Message.context?, Message.ready?] using hrest

omit [DecidableEq Key] in
/-- An endpoint that has reached a place has reached the places before it. -/
theorem reached_mono {place earlier : ℕ} (h : earlier ≤ place) (endpoint : Option (Session Key)) :
    reached place endpoint ≤ reached earlier endpoint := by
  unfold reached
  split_ifs with hplace hearlier
  · exact le_rfl
  · omega
  · exact Nat.zero_le _
  · exact le_rfl

/-- With nothing in flight and one endpoint known to the other, both are connected exactly when
every message arrived in time. -/
theorem Accounted.connected_iff_timely {host peer : Host (Option (Session Key)) (Message Key)}
    (h : Accounted host peer) (hhost : Quiet host.inbox) (hpeer : Quiet peer.inbox)
    (hknown : 1 ≤ progress host.party ∨ 1 ≤ progress peer.party) :
    progress host.party = 5 ∧ progress peer.party = 5 ↔ Timely host ∧ Timely peer := by
  obtain ⟨hrequests, hreplies, hcontexts, hreadys⟩ := hhost.counts
  obtain ⟨hpeerRequests, hpeerReplies, hpeerContexts, hpeerReadys⟩ := hpeer.counts
  constructor
  · rintro ⟨hconnected, hpeerConnected⟩
    have hplaces : ∀ place, place ≤ 5 →
        reached place host.party = 1 ∧ reached place peer.party = 1 :=
      fun place hplace ↦ ⟨reached_eq_one_iff.mpr (by omega), reached_eq_one_iff.mpr (by omega)⟩
    obtain ⟨hone, hpeerOne⟩ := hplaces 1 (by decide)
    obtain ⟨hthree, hpeerThree⟩ := hplaces 3 (by decide)
    obtain ⟨hfour, hpeerFour⟩ := hplaces 4 (by decide)
    obtain ⟨hfive, hpeerFive⟩ := hplaces 5 (by decide)
    by_contra hlate
    rcases h.stalled hlate with hstalled | hstalled
    · rcases hstalled with hgone | hgone | hgone <;> omega
    · rcases hstalled with hgone | hgone | hgone <;> omega
  · intro htimely
    obtain ⟨hsettles, hpeerSettles⟩ := h.settles htimely
    have hrequest := hsettles.request
    have hreply := hsettles.reply
    have hcontext := hsettles.context
    have hready := hsettles.ready
    have hpeerRequest := hpeerSettles.request
    have hpeerReply := hpeerSettles.reply
    have hpeerContext := hpeerSettles.context
    have hpeerReady := hpeerSettles.ready
    have hfirst := reached_mono (by decide : 1 ≤ 2) host.party
    have hsecond := reached_mono (by decide : 1 ≤ 2) peer.party
    have hhostOne := reached_le_one 1 host.party
    have hpeerOne := reached_le_one 1 peer.party
    have hstart : reached 1 host.party = 1 ∨ reached 1 peer.party = 1 :=
      hknown.imp reached_eq_one_iff.mpr reached_eq_one_iff.mpr
    have hhostFive : 5 ≤ progress host.party := reached_eq_one_iff.mp (by omega)
    have hpeerFive : 5 ≤ progress peer.party := reached_eq_one_iff.mp (by omega)
    exact ⟨le_antisymm (progress_le_five _) hhostFive, le_antisymm (progress_le_five _) hpeerFive⟩

end Kapua.Handshake
