import Kapua.Handshake.Protocol

/-!
# Agreement when messages are duplicated

Over a network that also duplicates, an old request can take an endpoint back to the start of the
handshake while its peer stays where it is. What holds is that nothing else does that: as long as no
request is handled by an endpoint that has received a session key (`Guarded`), the keys of two
connected endpoints agree. The invariant is much smaller than the one without duplicates, because a
message of the last kind fixes everything about the endpoint that sent it.
-/

set_option autoImplicit false
set_option relaxedAutoImplicit false

namespace Kapua.Handshake

variable {Key : Type}

/-- No request was handled by an endpoint that had received a session key. -/
def Guarded (host : Host (Option (Session Key)) (Message Key)) : Prop :=
  ∀ entry ∈ host.log, entry.2 = .request → progress entry.1 ≤ 3

/-- What the last messages of `host` and their effect on the peer say about `host`. -/
structure Secures (host peer : Host (Option (Session Key)) (Message Key)) : Prop where
  ready : ∀ key ∈ readys peer.inbox, 4 ≤ progress host.party ∧ tx host.party = some key
  confirmed : progress peer.party = 5 → 4 ≤ progress host.party ∧ rx peer.party = tx host.party

/-- Both hosts are secured by each other's messages, while requests are guarded. -/
def Secured (host peer : Host (Option (Session Key)) (Message Key)) : Prop :=
  Guarded host → Guarded peer → Secures host peer ∧ Secures peer host

/-- An endpoint that has received a session key keeps it and its own, except for a request. -/
theorem Reaction.stays {choice : Choice Key} {endpoint next : Option (Session Key)}
    {message : Message Key} {sent : List (Message Key)}
    (h : Reaction choice endpoint message next sent) (hrequest : message ≠ .request)
    (hplace : 4 ≤ progress endpoint) :
    4 ≤ progress next ∧ tx next = tx endpoint ∧ rx next = rx endpoint := by
  cases h with
  | ignored => exact ⟨hplace, rfl, rfl⟩
  | confirmed hbefore hafter hkey htx hrx => exact ⟨by omega, htx, hrx⟩
  | greeted => exact absurd rfl hrequest
  | requested => exact absurd rfl hrequest
  | met _ _ hbefore => omega
  | unsealed hbefore => omega
  | replied hbefore => omega
  | keyed hbefore => omega

/-- What an endpoint encrypts is encrypted with its session key, once it has received one. -/
theorem Reaction.ready_sent {choice : Choice Key} {endpoint next : Option (Session Key)}
    {message : Message Key} {sent : List (Message Key)}
    (h : Reaction choice endpoint message next sent) {key : Key} (hkey : key ∈ readys sent) :
    4 ≤ progress next ∧ tx next = some key := by
  cases h with
  | @keyed _ _ own _ hafter _ htx _ =>
    cases hseals : choice.seals with
    | false => simp [hseals] at hkey
    | true =>
      obtain rfl : key = own := by simpa [hseals, Message.ready?] using hkey
      exact ⟨hafter.ge, htx⟩
  | _ => simp [Message.ready?] at hkey

/-- An endpoint is connected because it was, or because of a message encrypted with the session key
it has received. -/
theorem Reaction.connected_cases {choice : Choice Key} {endpoint next : Option (Session Key)}
    {message : Message Key} {sent : List (Message Key)}
    (h : Reaction choice endpoint message next sent) (hconnected : progress next = 5) :
    progress endpoint = 5 ∧ message ≠ .request ∨
      ∃ key, message = .ready key ∧ rx next = some key := by
  cases h with
  | ignored hrequest => exact Or.inl ⟨hconnected, hrequest⟩
  | @confirmed _ key _ _ hkey _ hrx => exact Or.inr ⟨key, rfl, hrx.trans hkey⟩
  | met _ _ _ hafter => omega
  | greeted _ hafter => omega
  | requested _ hafter => omega
  | unsealed _ hafter => omega
  | replied _ hafter => omega
  | keyed _ hafter => omega

/-- Receiving a message keeps both hosts secured. Assumes: a request is handled only by an endpoint
that has not received a session key. -/
theorem secures_of_reaction {choice : Choice Key}
    {host peer : Host (Option (Session Key)) (Message Key)} {message : Message Key}
    {next : Option (Session Key)} {sent rest : List (Message Key)}
    {log : List (Option (Session Key) × Message Key)} (hhost : Secures host peer)
    (hpeer : Secures peer host) (hmessage : message ∈ host.inbox)
    (hrest : rest.Sublist host.inbox) (h : Reaction choice host.party message next sent)
    (hrequest : message = .request → progress host.party ≤ 3) :
    Secures ⟨next, rest, log⟩ (peer.post sent) ∧ Secures (peer.post sent) ⟨next, rest, log⟩ := by
  have hstays : 4 ≤ progress host.party →
      4 ≤ progress next ∧ tx next = tx host.party ∧ rx next = rx host.party := by
    intro hplace
    refine h.stays (fun heq ↦ ?_) hplace
    have := hrequest heq
    omega
  refine ⟨⟨?_, ?_⟩, ⟨?_, ?_⟩⟩
  · intro key hkey
    rw [Host.post, readys_append, List.mem_append] at hkey
    rcases hkey with hold | hnew
    · obtain ⟨hplace, htx⟩ := hhost.ready key hold
      obtain ⟨hnext, hsame, -⟩ := hstays hplace
      exact ⟨hnext, hsame.trans htx⟩
    · exact h.ready_sent hnew
  · intro hconnected
    obtain ⟨hplace, hrx⟩ := hhost.confirmed hconnected
    obtain ⟨hnext, hsame, -⟩ := hstays hplace
    exact ⟨hnext, hrx.trans hsame.symm⟩
  · intro key hkey
    exact hpeer.ready key ((hrest.filterMap _).subset hkey)
  · intro hconnected
    rcases h.connected_cases hconnected with ⟨hbefore, -⟩ | ⟨key, rfl, hrx⟩
    · obtain ⟨hplace, hsame⟩ := hpeer.confirmed hbefore
      obtain ⟨-, -, hnext⟩ := hstays (by omega)
      exact ⟨hplace, hnext.trans hsame⟩
    · obtain ⟨hplace, htx⟩ := hpeer.ready key (List.mem_filterMap.mpr ⟨_, hmessage, rfl⟩)
      exact ⟨hplace, hrx.trans htx.symm⟩

/-- Security is an invariant over every network. -/
theorem secured_preserved [DecidableEq Key] (allows : Action Unit → Prop)
    (Good : Side → Choice Key → Prop) :
    Preserved protocol allows Good Secured where
  symm := fun h hhost hpeer ↦ (h hpeer hhost).symm
  announce := by
    intro side choice host peer _ h hhost hpeer
    obtain ⟨hfirst, hsecond⟩ := h hhost hpeer
    refine ⟨⟨fun key hkey ↦ hfirst.ready key ?_, hfirst.confirmed⟩,
      ⟨hsecond.ready, hsecond.confirmed⟩⟩
    simpa [Host.post, protocol, Message.ready?] using hkey
  internal := fun _ hparty h ↦ internal_preserved hparty h
  deliver := by
    intro side index keep choice host peer message party replies _ _ hmessage hreceive h hhost hpeer
    obtain ⟨rfl, rfl⟩ := Prod.mk.inj (Option.some.inj hreceive)
    have hearlier : Guarded host := fun entry hentry ↦ hhost entry (List.mem_append_left _ hentry)
    obtain ⟨hfirst, hsecond⟩ := h hearlier hpeer
    refine secures_of_reaction hfirst hsecond (List.mem_of_getElem? hmessage) ?_
      (reaction_of_receive host.party message choice)
      (hhost (host.party, message) (List.mem_append_right _ (List.mem_singleton.mpr rfl)))
    cases keep with
    | true => exact List.Sublist.refl _
    | false => exact List.eraseIdx_sublist ..
  lose := by
    intro side index host peer _ h hhost hpeer
    obtain ⟨hfirst, hsecond⟩ := h hhost hpeer
    have hsublist : (host.drop index).inbox.Sublist host.inbox := List.eraseIdx_sublist ..
    exact ⟨⟨hfirst.ready, hfirst.confirmed⟩,
      ⟨fun key hkey ↦ hsecond.ready key ((hsublist.filterMap _).subset hkey), hsecond.confirmed⟩⟩

theorem secured_fresh : Secured (fresh : Host (Option (Session Key)) (Message Key)) fresh :=
  fun _ _ ↦ ⟨⟨by simp [fresh], by simp [fresh]⟩, ⟨by simp [fresh], by simp [fresh]⟩⟩

/-- The session keys of two connected endpoints agree. -/
theorem secured_keys {host peer : Host (Option (Session Key)) (Message Key)}
    (h : Secured host peer) (hhost : Guarded host) (hpeer : Guarded peer)
    (hconnected : progress host.party = 5) (hpeerConnected : progress peer.party = 5) :
    rx peer.party = tx host.party ∧ rx host.party = tx peer.party := by
  obtain ⟨hfirst, hsecond⟩ := h hhost hpeer
  exact ⟨(hfirst.confirmed hpeerConnected).2, (hsecond.confirmed hconnected).2⟩

end Kapua.Handshake
