import Kapua.Handshake.Beginning

/-!
# The handshake after a restart

A host that restarts forgets its peer, and the peer, which does not know, keeps its session. What
is in flight at that moment was sent to or by the former life. Where nothing further than a request
and replies to it was (`OnlyAsked`), `Rejoins` is what holds from then on over ordered links. It
reads like `InOrder`, with requests of the former life in front of what the restarted host sends,
and with a reply to each of them.

The restarted host asks for a key only once and its peer does not ask again. So it comes back only
if the peer has no session for it, or if the peer's request is still in flight to it; otherwise it
never gets past the state it starts in (`Stranded`).
-/

set_option autoImplicit false
set_option relaxedAutoImplicit false

namespace Kapua.Handshake

variable {Key : Type}

/-! ### After the restart -/

/-- The head of a block of equal stages followed by consecutive ones. -/
theorem head_of_blocks {count place first number stage : ℕ} {rest : List ℕ}
    (h : List.replicate count place ++ List.range' first number = stage :: rest) :
    (0 < count ∧ stage = place ∧
      rest = List.replicate (count - 1) place ++ List.range' first number) ∨
    count = 0 ∧ 0 < number ∧ stage = first ∧ rest = List.range' (first + 1) (number - 1) := by
  cases count with
  | succ count =>
    rw [List.replicate_succ, List.cons_append] at h
    obtain ⟨rfl, rfl⟩ := List.cons.inj h
    exact Or.inl ⟨Nat.succ_pos _, rfl, rfl⟩
  | zero =>
    cases number with
    | zero => simp at h
    | succ number =>
      rw [List.replicate_zero, List.nil_append, List.range'_succ] at h
      obtain ⟨rfl, rfl⟩ := List.cons.inj h
      exact Or.inr ⟨rfl, Nat.succ_pos _, rfl, rfl⟩

/-- The messages in flight after `host` restarted. To the peer, `old` requests of the former life
and then what the host has sent since and the peer has not handled, from stage `handled` on. To the
host, the peer's request unless the host has handled it, a reply to each request the peer has
handled, of which `again` are left, and then the rest of the peer's sequence.
* `early` and `place`: where the peer is after the stages it has handled.
* `answered`: the reply to the host's request is in flight until the host has handled one.
* `known`: the peer knows the host before the host can have heard of it.
* `settled`: no reply comes after a session key. -/
structure Rejoins (host peer : Host (Option (Session Key)) (Message Key))
    (old handled again : ℕ) : Prop where
  toPeer : stages peer.inbox =
    List.replicate old 0 ++ List.range' handled (spoken host.party - handled)
  toHost : stages host.inbox =
    (if heard host.party = 0 ∧ 1 ≤ progress peer.party then [0] else []) ++
      (List.replicate again 1 ++ List.range' (max 2 (heard host.party))
        (spoken peer.party - max 2 (heard host.party)))
  bound : handled ≤ spoken host.party
  stale : 0 < old → handled = 0
  early : handled = 0 → progress peer.party ≤ 2
  place : 0 < handled → progress peer.party = max 2 (handled + 1)
  answered : 0 < handled → progress host.party ≤ 2 → 0 < again
  known : 0 < again ∨ 2 ≤ progress host.party → 1 ≤ progress peer.party
  settled : 4 ≤ progress host.party → again = 0 ∧ heard host.party ≤ spoken peer.party
  carries : Carries host peer
  carried : Carries peer host

/-- The next message for the host that restarted. -/
theorem Rejoins.next_host {host peer : Host (Option (Session Key)) (Message Key)}
    {old handled again stage : ℕ} {message : Message Key} {rest : List (Message Key)}
    (h : Rejoins host peer old handled again) (hinbox : host.inbox = message :: rest)
    (hstage : message.stage? = some stage) :
    (stage = 0 ∧ progress host.party ≤ 1 ∧ 1 ≤ progress peer.party ∧
      stages rest = List.replicate again 1 ++ List.range' 2 (spoken peer.party - 2)) ∨
    (stage = 1 ∧ 2 ≤ progress host.party ∧ progress host.party ≤ 3 ∧ 0 < again ∧
      stages rest = List.replicate (again - 1) 1 ++ List.range' 2 (spoken peer.party - 2)) ∨
    (2 ≤ stage ∧ progress host.party = stage + 1 ∧ again = 0 ∧ stage < spoken peer.party ∧
      stages rest = List.range' (stage + 1) (spoken peer.party - (stage + 1))) := by
  have hstages := h.toHost
  have hspoken : spoken peer.party = min (progress peer.party) 4 := rfl
  have hheard : heard host.party = progress host.party - 1 := rfl
  have hknown := h.known
  have hsettled := h.settled
  have hanswered := h.answered
  have hplace := h.place
  have hearly := h.early
  rw [hinbox, stages_cons, hstage, Option.toList_some, List.singleton_append] at hstages
  split_ifs at hstages with hasked
  · have hfirst : max 2 (heard host.party) = 2 := by omega
    rw [List.singleton_append, hfirst] at hstages
    obtain ⟨rfl, hrest⟩ := List.cons.inj hstages
    exact Or.inl ⟨rfl, by omega, hasked.2, hrest⟩
  · rw [List.nil_append] at hstages
    rcases head_of_blocks hstages.symm with ⟨hpos, rfl, hrest⟩ | ⟨rfl, hpos, rfl, hrest⟩
    · have hthree : progress host.party ≤ 3 := by omega
      have hfirst : max 2 (heard host.party) = 2 := by omega
      rw [hfirst] at hrest
      exact Or.inr (Or.inl ⟨rfl, by omega, hthree, hpos, hrest⟩)
    · have hpast : 3 ≤ progress host.party := by
        by_contra hbefore
        have hhandled : 0 < handled := by omega
        have := hanswered hhandled (by omega)
        omega
      have hfirst : max 2 (heard host.party) + 1 = progress host.party := by omega
      refine Or.inr (Or.inr ⟨le_max_left .., hfirst.symm, rfl, by omega, ?_⟩)
      rw [hrest]
      congr 1

/-- The next message for the peer of the host that restarted. -/
theorem Rejoins.next_peer {host peer : Host (Option (Session Key)) (Message Key)}
    {old handled again stage : ℕ} {message : Message Key} {rest : List (Message Key)}
    (h : Rejoins host peer old handled again) (hinbox : peer.inbox = message :: rest)
    (hstage : message.stage? = some stage) :
    (stage = 0 ∧ handled = 0 ∧ 0 < old ∧
      stages rest = List.replicate (old - 1) 0 ++ List.range' 0 (spoken host.party)) ∨
    (stage = handled ∧ old = 0 ∧ handled < spoken host.party ∧
      stages rest = List.range' (handled + 1) (spoken host.party - (handled + 1))) := by
  have hstages := h.toPeer
  rw [hinbox, stages_cons, hstage, Option.toList_some, List.singleton_append] at hstages
  rcases head_of_blocks hstages.symm with ⟨hpos, rfl, hrest⟩ | ⟨rfl, hpos, rfl, hrest⟩
  · have hzero := h.stale hpos
    subst hzero
    exact Or.inl ⟨rfl, rfl, hpos, by simpa using hrest⟩
  · refine Or.inr ⟨rfl, rfl, by omega, ?_⟩
    rw [hrest]
    congr 1

/-- A session key is chosen before it is sent. -/
theorem stages_of_sent {messages : List (Message Key)} :
    (contexts messages ≠ [] → 2 ∈ stages messages) ∧
      (readys messages ≠ [] → 3 ∈ stages messages) := by
  refine ⟨fun hcontexts ↦ ?_, fun hreadys ↦ ?_⟩
  · obtain ⟨key, hkey⟩ := List.exists_mem_of_ne_nil _ hcontexts
    obtain ⟨message, hmem, hmessage⟩ := List.mem_filterMap.mp hkey
    cases message with
    | context => exact mem_stages hmem rfl
    | _ => simp [Message.context?] at hmessage
  · obtain ⟨key, hkey⟩ := List.exists_mem_of_ne_nil _ hreadys
    obtain ⟨message, hmem, hmessage⟩ := List.mem_filterMap.mp hkey
    cases message with
    | ready => exact mem_stages hmem rfl
    | _ => simp [Message.ready?] at hmessage

/-- Before a session key was sent there is nothing to carry. -/
theorem carries_of_stages {host peer : Host (Option (Session Key)) (Message Key)}
    (hstages : ∀ stage ∈ stages peer.inbox, stage < 2) (hpeer : progress peer.party < 4) :
    Carries host peer where
  context := by
    intro key hkey
    have := hstages 2 (stages_of_sent.1 (List.ne_nil_of_mem hkey))
    omega
  keyed := by omega
  ready := by
    intro key hkey
    have := hstages 3 (stages_of_sent.2 (List.ne_nil_of_mem hkey))
    omega

theorem Rejoins.chosen {host peer : Host (Option (Session Key)) (Message Key)}
    {old handled again : ℕ} (h : Rejoins host peer old handled again)
    (hsent : contexts peer.inbox ≠ [] ∨ readys peer.inbox ≠ [] ∨ 4 ≤ progress peer.party) :
    3 ≤ progress host.party := by
  have hspoken : spoken host.party = min (progress host.party) 4 := rfl
  have hbound := h.bound
  have hstage : ∀ stage, 0 < stage → stage ∈ stages peer.inbox → stage < spoken host.party := by
    intro stage hpos hmem
    rw [h.toPeer, List.mem_append, List.mem_replicate, List.mem_range'_1] at hmem
    omega
  rcases hsent with hcontexts | hreadys | hpeer
  · have := hstage 2 (by decide) (stages_of_sent.1 hcontexts)
    omega
  · have := hstage 3 (by decide) (stages_of_sent.2 hreadys)
    omega
  · have hearly := h.early
    have hplace := h.place
    omega

theorem Rejoins.peer_chosen {host peer : Host (Option (Session Key)) (Message Key)}
    {old handled again : ℕ} (h : Rejoins host peer old handled again)
    (hsent : contexts host.inbox ≠ [] ∨ readys host.inbox ≠ [] ∨ 4 ≤ progress host.party) :
    3 ≤ progress peer.party := by
  have hspoken : spoken peer.party = min (progress peer.party) 4 := rfl
  have hheard : heard host.party = progress host.party - 1 := rfl
  have hstage : ∀ stage, 2 ≤ stage → stage ∈ stages host.inbox → stage < spoken peer.party := by
    intro stage hpos hmem
    rw [h.toHost, List.mem_append, List.mem_append, List.mem_replicate, List.mem_range'_1] at hmem
    rcases hmem with hasked | hanswer | hlater
    · split_ifs at hasked with hcondition
      · simp at hasked
        omega
      · simp at hasked
    · omega
    · omega
  rcases hsent with hcontexts | hreadys | hhost
  · have := hstage 2 le_rfl (stages_of_sent.1 hcontexts)
    omega
  · have := hstage 3 (by decide) (stages_of_sent.2 hreadys)
    omega
  · have hsettled := (h.settled hhost).2
    omega

section Deliver

variable [DecidableEq Key] {host peer : Host (Option (Session Key)) (Message Key)}
  {message : Message Key} {rest sent : List (Message Key)} {next : Option (Session Key)}
  {log : List (Option (Session Key) × Message Key)} {old handled again : ℕ}

/-- What is left of the obligations when the host that restarted receives a message. -/
theorem Rejoins.host_next (h : Rejoins host peer old handled again)
    (htaken : Taken host.inbox message rest) (heffect : Effect host.party message next sent)
    {left : ℕ} (hmono : spoken host.party ≤ spoken next)
    (hsent : stages sent = List.range' (spoken host.party) (spoken next - spoken host.party))
    (hrest : stages rest = (if heard next = 0 ∧ 1 ≤ progress peer.party then [0] else []) ++
      (List.replicate left 1 ++ List.range' (max 2 (heard next))
        (spoken peer.party - max 2 (heard next))))
    (hanswered : 0 < handled → progress next ≤ 2 → 0 < left)
    (hknown : 0 < left ∨ 2 ≤ progress next → 1 ≤ progress peer.party)
    (hsettled : 4 ≤ progress next → left = 0 ∧ heard next ≤ spoken peer.party) :
    Rejoins ⟨next, rest, log⟩ (peer.post sent) old handled left where
  toPeer := by
    have hbound := h.bound
    have hstart : handled + (spoken host.party - handled) = spoken host.party := by omega
    have hsplit : spoken next - handled =
        (spoken host.party - handled) + (spoken next - spoken host.party) := by omega
    simp only [Host.post, stages_append, h.toPeer, hsent, hsplit]
    rw [← List.range'_append_1, hstart, List.append_assoc]
  toHost := hrest
  bound := h.bound.trans hmono
  stale := h.stale
  early := h.early
  place := h.place
  answered := hanswered
  known := hknown
  settled := hsettled
  carries := h.carries.speak heffect h.chosen
  carried := h.carried.hear htaken heffect

/-- The host that restarted receives a message. Assumes: the cryptographic calls succeed. -/
theorem Rejoins.hear {choice : Choice Key} (hworks : choice.Works)
    (h : Rejoins host peer old handled again) (hinbox : host.inbox = message :: rest)
    (hreaction : Reaction choice host.party message next sent) :
    ∃ left, Rejoins ⟨next, rest, log⟩ (peer.post sent) old handled left := by
  have hheard : heard host.party = progress host.party - 1 := rfl
  have hnextHeard : heard next = progress next - 1 := rfl
  have htaken : Taken host.inbox message rest := taken_of_perm (by rw [hinbox])
  have hanswered := h.answered
  have hknown := h.known
  have hsettled := h.settled
  have hstages := fun {stage : ℕ} (hstage : message.stage? = some stage) ↦
    h.next_host hinbox hstage
  have hrequest : message = .request → progress host.party ≤ 1 := by
    rintro rfl
    have := hstages rfl
    omega
  have heffect := hreaction.effect fun heq ↦ (hrequest heq).trans (by decide)
  by_cases hlate : message = .reply ∧ progress host.party = 3
  · obtain ⟨rfl, hthree⟩ := hlate
    cases hreaction with
    | ignored =>
      obtain ⟨hzero, -⟩ | ⟨-, -, -, hpos, hrest⟩ | ⟨htwo, -⟩ := hstages rfl
      · omega
      · refine ⟨again - 1, h.host_next htaken heffect le_rfl (by simp) ?_ (by omega) (by omega)
          (by omega)⟩
        have htwo : heard host.party = 2 := by omega
        simpa [htwo] using hrest
      · omega
    | met => omega
    | unsealed => omega
    | replied => omega
  · have hready : ∀ key, message = .ready key →
        progress host.party = 4 ∧ rx host.party = some key := by
      rintro key rfl
      have hfour : progress host.party = 4 := by
        have := hstages rfl
        omega
      refine ⟨hfour, (h.carried.keyed hfour.ge).trans (h.carried.ready key ?_)⟩
      exact htaken.ready key (Or.inl rfl)
    have hreply : message = .reply → progress host.party = 2 := by
      rintro rfl
      have hthree : ¬ progress host.party = 3 := fun hthree ↦ hlate ⟨rfl, hthree⟩
      have := hstages rfl
      omega
    have hcontext : ∀ key, message = .context key → progress host.party = 3 := by
      rintro key rfl
      have := hstages rfl
      omega
    obtain ⟨hafter, hmono, hsent⟩ := hreaction.advances hworks hrequest hreply hcontext hready
    cases hstage : message.stage? with
    | none =>
      have hsame : heard next = heard host.party := by simpa [hstage] using hafter
      refine ⟨again, h.host_next htaken heffect hmono hsent ?_ (by omega) (by omega) (by omega)⟩
      rw [hsame, ← h.toHost, hinbox, stages_cons, hstage]
      rfl
    | some stage =>
      have hone : heard next = heard host.party + 1 := by simpa [hstage] using hafter
      obtain ⟨rfl, hplace, hmet, hrest⟩ | ⟨rfl, hplace, -, hpos, hrest⟩ |
        ⟨hstage', hplace, rfl, hmet, hrest⟩ := hstages hstage
      · have hnext : heard next = 1 := by omega
        refine ⟨again, h.host_next htaken heffect hmono hsent ?_ (by omega) (by omega) (by omega)⟩
        simpa [hnext] using hrest
      · have hmessage : message = .reply := by
          cases message with
          | reply => rfl
          | _ => simp [Message.stage?] at hstage
        have htwo := hreply hmessage
        have hnext : heard next = 2 := by omega
        refine ⟨again - 1, h.host_next htaken heffect hmono hsent ?_ (by omega) (by omega)
          (by omega)⟩
        simpa [hnext] using hrest
      · have hnext : heard next = stage + 1 := by omega
        have hfirst : max 2 (stage + 1) = stage + 1 := by omega
        refine ⟨0, h.host_next htaken heffect hmono hsent ?_ (by omega) (by omega) (by omega)⟩
        simpa [hnext, hfirst] using hrest

omit [DecidableEq Key] in
/-- The peer of the host that restarted handles a request, whichever life sent it. -/
theorem Rejoins.asked {choice : Choice Key} (h : Rejoins host peer old handled again)
    (hplace : progress peer.party ≤ 2)
    (hreaction : Reaction choice peer.party .request next sent) :
    progress next = 2 ∧ stages (host.inbox ++ sent) =
      (if heard host.party = 0 ∧ 1 ≤ progress next then [0] else []) ++
        (List.replicate (again + 1) 1 ++ List.range' (max 2 (heard host.party))
          (spoken next - max 2 (heard host.party))) := by
  have hheard : heard host.party = progress host.party - 1 := rfl
  have hspoken : spoken peer.party = min (progress peer.party) 4 := rfl
  have hnextSpoken : spoken next = min (progress next) 4 := rfl
  have hnone : spoken peer.party - max 2 (heard host.party) = 0 := by omega
  have hstages := h.toHost
  rw [hnone, List.range'_zero, List.append_nil] at hstages
  have hknown := h.known
  cases hreaction with
  | ignored hrequest => exact absurd rfl hrequest
  | met hrequest => exact absurd rfl hrequest
  | greeted hbefore hafter =>
    have hleft : again = 0 := by omega
    have hheardZero : heard host.party = 0 := by omega
    refine ⟨hafter, ?_⟩
    simp [hstages, hbefore, hafter, hleft, hheardZero, hnextSpoken, Message.stage?]
  | requested hbefore hafter =>
    have hmet : 1 ≤ progress peer.party := by omega
    have hnone' : spoken next - max 2 (heard host.party) = 0 := by omega
    refine ⟨hafter, ?_⟩
    rw [stages_append, hstages, hnone']
    simp [hmet, hafter, Message.stage?, List.replicate_succ']

/-- What is left of the obligations when the peer of the host that restarted receives a message. -/
theorem Rejoins.peer_next (h : Rejoins host peer old handled again)
    (htaken : Taken peer.inbox message rest) (heffect : Effect peer.party message next sent)
    {waiting number left : ℕ}
    (hrest : stages rest =
      List.replicate waiting 0 ++ List.range' number (spoken host.party - number))
    (htoHost : stages (host.inbox ++ sent) =
      (if heard host.party = 0 ∧ 1 ≤ progress next then [0] else []) ++
        (List.replicate left 1 ++ List.range' (max 2 (heard host.party))
          (spoken next - max 2 (heard host.party))))
    (hbound : number ≤ spoken host.party) (hstale : 0 < waiting → number = 0)
    (hearly : number = 0 → progress next ≤ 2)
    (hplace : 0 < number → progress next = max 2 (number + 1))
    (hanswered : 0 < number → progress host.party ≤ 2 → 0 < left)
    (hknown : 0 < left ∨ 2 ≤ progress host.party → 1 ≤ progress next)
    (hsettled : 4 ≤ progress host.party → left = 0 ∧ heard host.party ≤ spoken next) :
    Rejoins (host.post sent) ⟨next, rest, log⟩ waiting number left where
  toPeer := hrest
  toHost := htoHost
  bound := hbound
  stale := hstale
  early := hearly
  place := hplace
  answered := hanswered
  known := hknown
  settled := hsettled
  carries := h.carries.hear htaken heffect
  carried := h.carried.speak heffect h.peer_chosen

/-- The peer of the host that restarted receives a request. -/
theorem Rejoins.speak_request {choice : Choice Key} (h : Rejoins host peer old handled again)
    (hinbox : peer.inbox = .request :: rest)
    (hreaction : Reaction choice peer.party .request next sent) :
    ∃ waiting number, Rejoins (host.post sent) ⟨next, rest, log⟩ waiting number (again + 1) := by
  have hstages := h.next_peer hinbox rfl
  have hearly := h.early
  have hplace : progress peer.party ≤ 2 := by omega
  have hsettled : ¬ 4 ≤ progress host.party := by
    intro hfour
    have hspoken : spoken peer.party = min (progress peer.party) 4 := rfl
    have hheard : heard host.party = progress host.party - 1 := rfl
    have hlast := (h.settled hfour).2
    omega
  have htaken : Taken peer.inbox .request rest := taken_of_perm (by rw [hinbox])
  have heffect := hreaction.effect fun _ ↦ hplace
  obtain ⟨htwo, htoHost⟩ := h.asked hplace hreaction
  have hknown : 1 ≤ progress next := by omega
  obtain ⟨-, rfl, hpos, hrest⟩ | ⟨rfl, rfl, hless, hrest⟩ := hstages
  · exact ⟨old - 1, 0, h.peer_next htaken heffect hrest htoHost h.bound (fun _ ↦ rfl)
      (fun _ ↦ htwo.le) (by simp) (by simp) (fun _ ↦ hknown) fun hfour ↦ absurd hfour hsettled⟩
  · exact ⟨0, 1, h.peer_next htaken heffect hrest htoHost hless (by simp) (by simp)
      (fun _ ↦ htwo) (fun _ _ ↦ Nat.succ_pos _) (fun _ ↦ hknown) fun hfour ↦
        absurd hfour hsettled⟩

omit [DecidableEq Key] in
/-- What is in flight to the host that restarted when its peer gets to know it. -/
theorem Rejoins.toHost_same (h : Rejoins host peer old handled again)
    (hsame : heard next = heard peer.party) (hmono : spoken peer.party ≤ spoken next)
    (hsent : stages sent = List.range' (spoken peer.party) (spoken next - spoken peer.party)) :
    stages (host.inbox ++ sent) =
      (if heard host.party = 0 ∧ 1 ≤ progress next then [0] else []) ++
        (List.replicate again 1 ++ List.range' (max 2 (heard host.party))
          (spoken next - max 2 (heard host.party))) := by
  have hheard : heard host.party = progress host.party - 1 := rfl
  have hpeerHeard : heard peer.party = progress peer.party - 1 := rfl
  have hnextHeard : heard next = progress next - 1 := rfl
  have hspoken : spoken peer.party = min (progress peer.party) 4 := rfl
  have hnextSpoken : spoken next = min (progress next) 4 := rfl
  have hknown := h.known
  simp only [stages_append, h.toHost, hsent]
  by_cases hmet : progress peer.party = 0
  · have hleft : again = 0 := by omega
    have hzero : heard host.party = 0 := by omega
    have hplaces : progress next = 0 ∨ progress next = 1 := by omega
    rcases hplaces with hnext | hnext
    · simp [hspoken, hnextSpoken, hmet, hleft, hnext]
    · simp [hspoken, hnextSpoken, hmet, hleft, hzero, hnext]
  · have hnext : progress next = progress peer.party := by omega
    simp [hspoken, hnextSpoken, hnext]

omit [DecidableEq Key] in
/-- What is in flight to the host that restarted when its peer goes on. -/
theorem Rejoins.toHost_further (h : Rejoins host peer old handled again)
    (hmet : 1 ≤ progress peer.party) (hnextMet : 1 ≤ progress next)
    (hreached : max 2 (heard host.party) ≤ spoken peer.party)
    (hmono : spoken peer.party ≤ spoken next)
    (hsent : stages sent = List.range' (spoken peer.party) (spoken next - spoken peer.party)) :
    stages (host.inbox ++ sent) =
      (if heard host.party = 0 ∧ 1 ≤ progress next then [0] else []) ++
        (List.replicate again 1 ++ List.range' (max 2 (heard host.party))
          (spoken next - max 2 (heard host.party))) := by
  have hstart : max 2 (heard host.party) + (spoken peer.party - max 2 (heard host.party)) =
      spoken peer.party := by omega
  have hsplit : spoken next - max 2 (heard host.party) =
      (spoken peer.party - max 2 (heard host.party)) + (spoken next - spoken peer.party) := by
    omega
  simp only [stages_append, h.toHost, hsent, hsplit, hmet, hnextMet]
  rw [← List.range'_append_1, hstart, List.append_assoc, List.append_assoc]

/-- The peer of the host that restarted receives anything but a request. Assumes: the cryptographic
calls succeed. -/
theorem Rejoins.speak_other {choice : Choice Key} (hworks : choice.Works)
    (h : Rejoins host peer old handled again) (hinbox : peer.inbox = message :: rest)
    (hother : message ≠ .request) (hreaction : Reaction choice peer.party message next sent) :
    ∃ waiting number, Rejoins (host.post sent) ⟨next, rest, log⟩ waiting number again := by
  have hpeerHeard : heard peer.party = progress peer.party - 1 := rfl
  have hnextHeard : heard next = progress next - 1 := rfl
  have hplace := h.place
  have hstages := fun {stage : ℕ} (hstage : message.stage? = some stage) ↦
    h.next_peer hinbox hstage
  have htaken : Taken peer.inbox message rest := taken_of_perm (by rw [hinbox])
  have heffect := hreaction.effect fun heq ↦ absurd heq hother
  have hready : ∀ key, message = .ready key →
      progress peer.party = 4 ∧ rx peer.party = some key := by
    rintro key rfl
    have hfour : progress peer.party = 4 := by
      have := hstages rfl
      omega
    exact ⟨hfour, (h.carries.keyed hfour.ge).trans (h.carries.ready key
      (htaken.ready key (Or.inl rfl)))⟩
  have hreply : message = .reply → progress peer.party = 2 := by
    rintro rfl
    have := hstages rfl
    omega
  have hcontext : ∀ key, message = .context key → progress peer.party = 3 := by
    rintro key rfl
    have := hstages rfl
    omega
  obtain ⟨hafter, hmono, hsent⟩ := hreaction.advances hworks
    (fun heq ↦ absurd heq hother) hreply hcontext hready
  have hknown := h.known
  have hsettled : 4 ≤ progress host.party → again = 0 ∧ heard host.party ≤ spoken next :=
    fun hfour ↦ ⟨(h.settled hfour).1, (h.settled hfour).2.trans hmono⟩
  cases hstage : message.stage? with
  | none =>
    have hsame : heard next = heard peer.party := by simpa [hstage] using hafter
    have hrest : stages rest = stages peer.inbox := by simp [hinbox, hstage]
    have hearly := h.early
    have hmet : 1 ≤ progress peer.party → 1 ≤ progress next := by
      have hspoken : spoken peer.party = min (progress peer.party) 4 := rfl
      have hnextSpoken : spoken next = min (progress next) 4 := rfl
      omega
    exact ⟨old, handled, h.peer_next htaken heffect (hrest.trans h.toPeer)
      (h.toHost_same hsame hmono hsent) h.bound h.stale (by omega) (by omega) h.answered
      (fun hleft ↦ hmet (hknown hleft)) hsettled⟩
  | some stage =>
    have hone : heard next = heard peer.party + 1 := by simpa [hstage] using hafter
    have hpos : stage ≠ 0 := by
      rintro rfl
      cases message with
      | request => exact hother rfl
      | _ => simp [Message.stage?] at hstage
    obtain ⟨hzero, -⟩ | ⟨rfl, rfl, hless, hrest⟩ := hstages hstage
    · exact absurd hzero hpos
    · have hnext : progress next = stage + 2 := by omega
      have hreached : max 2 (heard host.party) ≤ spoken peer.party := by
        have hheard : heard host.party = progress host.party - 1 := rfl
        have hspoken : spoken peer.party = min (progress peer.party) 4 := rfl
        have hlast := h.settled
        omega
      have hanswered := h.answered (Nat.pos_of_ne_zero hpos)
      exact ⟨0, stage + 1, h.peer_next htaken heffect hrest
        (h.toHost_further (by omega) (by omega) hreached hmono hsent) hless (by simp) (by simp)
        (fun _ ↦ by omega) (fun _ ↦ hanswered) (fun _ ↦ by omega) hsettled⟩

/-- The peer of the host that restarted receives a message. Assumes: the cryptographic calls
succeed. -/
theorem Rejoins.speak {choice : Choice Key} (hworks : choice.Works)
    (h : Rejoins host peer old handled again) (hinbox : peer.inbox = message :: rest)
    (hreaction : Reaction choice peer.party message next sent) :
    ∃ waiting number left,
      Rejoins (host.post sent) ⟨next, rest, log⟩ waiting number left := by
  by_cases hmessage : message = .request
  · subst hmessage
    obtain ⟨waiting, number, hnext⟩ := h.speak_request hinbox hreaction
    exact ⟨waiting, number, again + 1, hnext⟩
  · obtain ⟨waiting, number, hnext⟩ := h.speak_other hworks hinbox hmessage hreaction
    exact ⟨waiting, number, again, hnext⟩

end Deliver

/-- What a restart leaves. Assumes: the peer has no session for the host, or its request is in
flight to the host and it has only asked. -/
theorem Early.rejoins {host peer : Host (Option (Session Key)) (Message Key)} (h : Early host peer)
    (hpeer : progress peer.party = 0 ∨ .request ∈ host.inbox ∧ OnlyAsked host peer)
    (log log' : List (Option (Session Key) × Message Key)) :
    ∃ old again, Rejoins ⟨none, host.inbox, log⟩ ⟨peer.party, peer.inbox, log'⟩ old 0 again := by
  have hasks : OnlyAsked host peer :=
    hpeer.elim (fun hzero ↦ h.onlyAsked (h.unmet hzero).2) And.right
  have hspoken : spoken peer.party = min (progress peer.party) 4 := rfl
  have hearly := hasks.place
  obtain ⟨old, hold⟩ : ∃ old, stages peer.inbox = List.replicate old 0 :=
    ⟨_, List.eq_replicate_iff.mpr ⟨rfl, hasks.toPeer⟩⟩
  obtain ⟨asked, again, hasked, hanswers⟩ := answers_of_once h.once hasks.toHost
  have hnone : spoken peer.party - 2 = 0 := by omega
  have hknown : 0 < again → 1 ≤ progress peer.party := by
    intro hagain
    by_contra hzero
    rw [(h.unmet (by omega)).1, eq_comm, List.append_eq_nil_iff, List.replicate_eq_nil_iff,
      List.replicate_eq_nil_iff] at hanswers
    omega
  have hfirst : List.replicate asked 0 =
      if heard (none : Option (Session Key)) = 0 ∧ 1 ≤ progress peer.party then [0] else [] := by
    rcases hpeer with hzero | ⟨hrequest, -⟩
    · rw [(h.unmet hzero).1, eq_comm, List.append_eq_nil_iff] at hanswers
      simp [hanswers.1, hzero]
    · have hmem : 0 ∈ stages host.inbox := mem_stages hrequest rfl
      have hone : asked = 1 := by
        rw [hanswers, List.mem_append, List.mem_replicate, List.mem_replicate] at hmem
        omega
      have hmet : progress peer.party ≠ 0 := by
        intro hzero
        simp [(h.unmet hzero).1] at hmem
      have hpos : 1 ≤ progress peer.party := Nat.pos_of_ne_zero hmet
      simp [hone, heard, hpos]
  refine ⟨old, again, {
    toPeer := by simpa [spoken] using hold
    toHost := ?_
    bound := Nat.zero_le _
    stale := fun _ ↦ rfl
    early := fun _ ↦ hearly
    place := by omega
    answered := by omega
    known := fun hagain ↦ hknown (hagain.resolve_right (by simp))
    settled := by simp
    carries := carries_of_stages (hold ▸ by simp) (hearly.trans_lt (by decide))
    carried := carries_of_stages (hanswers ▸ ?_) (by simp) }⟩
  · show stages host.inbox = _
    have hbegin : max 2 (heard (none : Option (Session Key))) = 2 := rfl
    rw [hanswers, hfirst, hbegin, hnone, List.range'_zero, List.append_nil]
  · intro stage hstage
    rw [List.mem_append, List.mem_replicate, List.mem_replicate] at hstage
    omega

/-- One of the two hosts restarted. -/
def Recovering (host peer : Host (Option (Session Key)) (Message Key)) : Prop :=
  (∃ old handled again, Rejoins host peer old handled again) ∨
    ∃ old handled again, Rejoins peer host old handled again

/-- Discovery is no message of the handshake. -/
theorem Rejoins.announced {host peer : Host (Option (Session Key)) (Message Key)}
    {old handled again : ℕ} (h : Rejoins host peer old handled again) :
    Rejoins host (peer.post [.discovery]) old handled again where
  toPeer := by simpa [Host.post, Message.stage?] using h.toPeer
  toHost := h.toHost
  bound := h.bound
  stale := h.stale
  early := h.early
  place := h.place
  answered := h.answered
  known := h.known
  settled := h.settled
  carries := h.carries.mono rfl rfl (by simp [Host.post, Message.context?])
    (by simp [Host.post, Message.ready?])
  carried := h.carried.mono rfl rfl (List.Subset.refl _) (List.Subset.refl _)

theorem Rejoins.announces {host peer : Host (Option (Session Key)) (Message Key)}
    {old handled again : ℕ} (h : Rejoins host peer old handled again) :
    Rejoins (host.post [.discovery]) peer old handled again where
  toPeer := h.toPeer
  toHost := by
    show stages (host.inbox ++ [.discovery]) = _
    rw [stages_append]
    exact (List.append_nil _).trans h.toHost
  bound := h.bound
  stale := h.stale
  early := h.early
  place := h.place
  answered := h.answered
  known := h.known
  settled := h.settled
  carries := h.carries.mono rfl rfl (List.Subset.refl _) (List.Subset.refl _)
  carried := h.carried.mono rfl rfl (by simp [Host.post, Message.context?])
    (by simp [Host.post, Message.ready?])

/-- Recovery is an invariant over ordered links. Assumes: the cryptographic calls succeed. -/
theorem recovering_preserved [DecidableEq Key] :
    Preserved (protocol : Side → Program (Option (Session Key)) (Message Key) (Choice Key))
      Action.Ordered (fun _ choice ↦ choice.Works) Recovering where
  symm := Or.symm
  announce := by
    rintro side choice host peer - (⟨old, handled, again, h⟩ | ⟨old, handled, again, h⟩)
    · exact Or.inl ⟨old, handled, again, h.announced⟩
    · exact Or.inr ⟨old, handled, again, h.announces⟩
  internal := fun _ hparty h ↦ internal_preserved hparty h
  deliver := by
    intro side index keep choice host peer message party replies hallowed hworks hmessage hreceive h
    obtain ⟨rfl, rfl⟩ : index = 0 ∧ keep = false := hallowed
    obtain ⟨rfl, rfl⟩ := Prod.mk.inj (Option.some.inj hreceive)
    obtain ⟨rest, hinbox⟩ := exists_inbox_of_head hmessage
    have hrest : host.remaining 0 false = rest := by simp [Host.remaining, hinbox]
    have hreaction := reaction_of_receive host.party message choice
    rw [Host.received, hrest]
    rcases h with ⟨old, handled, again, h⟩ | ⟨old, handled, again, h⟩
    · obtain ⟨left, hnext⟩ := h.hear hworks hinbox hreaction
      exact Or.inl ⟨old, handled, left, hnext⟩
    · exact Or.inr (h.speak hworks hinbox hreaction)
  lose := fun hallowed ↦ hallowed.elim

/-- With nothing in flight and one endpoint known to the other, both are connected and the session
keys agree. -/
theorem Rejoins.connected {host peer : Host (Option (Session Key)) (Message Key)}
    {old handled again : ℕ} (h : Rejoins host peer old handled again) (hhost : Quiet host.inbox)
    (hpeer : Quiet peer.inbox) (hknown : 1 ≤ progress host.party ∨ 1 ≤ progress peer.party) :
    progress host.party = 5 ∧ progress peer.party = 5 ∧ rx peer.party = tx host.party ∧
      rx host.party = tx peer.party := by
  have hheard : heard host.party = progress host.party - 1 := rfl
  have hspoken : spoken host.party = min (progress host.party) 4 := rfl
  have hpeerSpoken : spoken peer.party = min (progress peer.party) 4 := rfl
  have hbound := h.bound
  have hearly := h.early
  have hplace := h.place
  have hanswered := h.answered
  have htoPeer := h.toPeer
  have htoHost := h.toHost
  rw [hpeer.stages_eq_nil, eq_comm, List.append_eq_nil_iff, List.range'_eq_nil_iff] at htoPeer
  rw [hhost.stages_eq_nil, eq_comm, List.append_eq_nil_iff, List.append_eq_nil_iff,
    List.replicate_eq_nil_iff, List.range'_eq_nil_iff] at htoHost
  obtain ⟨-, hspent⟩ := htoPeer
  obtain ⟨hasked, rfl, hpeerSpent⟩ := htoHost
  have hmet : ¬ (heard host.party = 0 ∧ 1 ≤ progress peer.party) := by
    intro hcondition
    simp [hcondition] at hasked
  have hfour : 3 ≤ heard host.party := by omega
  have hfive : progress host.party = 5 := by
    have hle := progress_le_five host.party
    omega
  have hpeerFive : progress peer.party = 5 := by omega
  exact ⟨hfive, hpeerFive, h.carries.keyed (by omega), h.carried.keyed (by omega)⟩

theorem Recovering.connected {host peer : Host (Option (Session Key)) (Message Key)}
    (h : Recovering host peer) (hhost : Quiet host.inbox) (hpeer : Quiet peer.inbox)
    (hknown : 1 ≤ progress host.party ∨ 1 ≤ progress peer.party) :
    progress host.party = 5 ∧ progress peer.party = 5 ∧ rx peer.party = tx host.party ∧
      rx host.party = tx peer.party := by
  rcases h with ⟨old, handled, again, h⟩ | ⟨old, handled, again, h⟩
  · exact h.connected hhost hpeer hknown
  · obtain ⟨hpeerFive, hfive, hrx, hpeerRx⟩ := h.connected hpeer hhost hknown.symm
    exact ⟨hfive, hpeerFive, hpeerRx, hrx⟩

/-! ### When the host does not come back -/

/-- `host` has handled no request, and its peer knows it and has none in flight to it. -/
structure Stranded (host peer : Host (Option (Session Key)) (Message Key)) : Prop where
  known : 1 ≤ progress peer.party
  unasked : .request ∉ host.inbox
  waiting : progress host.party ≤ 1

/-- What an endpoint does with anything but a request before it has handled one. -/
theorem Reaction.waits {choice : Choice Key} {endpoint next : Option (Session Key)}
    {message : Message Key} {sent : List (Message Key)}
    (h : Reaction choice endpoint message next sent) (hrequest : message ≠ .request)
    (hplace : progress endpoint ≤ 1) : progress next ≤ 1 := by
  cases h with
  | ignored => exact hplace
  | met _ _ _ hafter => exact hafter.le
  | greeted => exact absurd rfl hrequest
  | requested => exact absurd rfl hrequest
  | unsealed hbefore => omega
  | replied hbefore => omega
  | keyed hbefore => omega
  | confirmed hbefore => omega

/-- An endpoint asks for a key only when it gets to know its peer. -/
theorem Reaction.knows {choice : Choice Key} {endpoint next : Option (Session Key)}
    {message : Message Key} {sent : List (Message Key)}
    (h : Reaction choice endpoint message next sent) (hknown : 1 ≤ progress endpoint) :
    1 ≤ progress next ∧ .request ∉ sent := by
  cases h with
  | ignored => exact ⟨hknown, by simp⟩
  | met _ _ hbefore => omega
  | greeted hbefore => omega
  | requested _ hafter => exact ⟨by omega, by simp⟩
  | unsealed _ hafter => exact ⟨by omega, by simp⟩
  | replied _ hafter => exact ⟨by omega, by simp⟩
  | keyed _ hafter =>
    refine ⟨by omega, ?_⟩
    cases choice.seals <;> simp
  | confirmed _ hafter => exact ⟨by omega, by simp⟩

/-- One of the two hosts is stranded. -/
def Split (host peer : Host (Option (Session Key)) (Message Key)) : Prop :=
  Stranded host peer ∨ Stranded peer host

/-- A host that is stranded stays so, over every network. -/
theorem split_preserved [DecidableEq Key] (allows : Action Unit → Prop)
    (Good : Side → Choice Key → Prop) : Preserved protocol allows Good Split where
  symm := Or.symm
  announce := by
    intro side choice host peer _ h
    refine h.imp (fun h ↦ ⟨h.known, h.unasked, h.waiting⟩) fun h ↦ ⟨h.known, ?_, h.waiting⟩
    simpa [Host.post, protocol] using h.unasked
  internal := fun _ hparty h ↦ internal_preserved hparty h
  deliver := by
    intro side index keep choice host peer message party replies _ _ hmessage hreceive h
    obtain ⟨rfl, rfl⟩ := Prod.mk.inj (Option.some.inj hreceive)
    have hreaction := reaction_of_receive host.party message choice
    have hmem := List.mem_of_getElem? hmessage
    have hrest : host.remaining index keep ⊆ host.inbox := by
      cases keep with
      | true => exact List.Subset.refl _
      | false => exact (List.eraseIdx_sublist ..).subset
    rcases h with h | h
    · refine Or.inl ⟨h.known, fun hrequest ↦ h.unasked (hrest hrequest), ?_⟩
      exact hreaction.waits (fun heq ↦ h.unasked (heq ▸ hmem)) h.waiting
    · obtain ⟨hknown, hsent⟩ := hreaction.knows h.known
      refine Or.inr ⟨hknown, ?_, h.waiting⟩
      simpa [Host.post] using ⟨h.unasked, hsent⟩
  lose := by
    intro side index host peer _ h
    have hsubset : (host.drop index).inbox ⊆ host.inbox := (List.eraseIdx_sublist ..).subset
    exact h.imp (fun h ↦ ⟨h.known, fun hrequest ↦ h.unasked (hsubset hrequest), h.waiting⟩)
      fun h ↦ ⟨h.known, h.unasked, h.waiting⟩

theorem Split.not_connected {host peer : Host (Option (Session Key)) (Message Key)}
    (h : Split host peer) : ¬ (progress host.party = 5 ∧ progress peer.party = 5) := by
  rcases h with h | h
  · have := h.waiting
    omega
  · have := h.waiting
    omega

end Kapua.Handshake
