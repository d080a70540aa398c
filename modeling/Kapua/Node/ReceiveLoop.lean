import Kapua.Foundation.Transition
import Kapua.Node.UDPNetwork

/-!
# What a pass of the receive loop can do

One inversion lemma for `dispatch` (`handling_of_dispatch`) and one for `pass`
(`passing_of_pass`): whenever a pass returns, it did one of the things `Passing` lists, and inside
an accepted pass the packet was handled in one of the ways `Handling` lists. Every later result
about the loop goes through these two and does not unfold the loop again. In the other direction
`pass_of_rejected`, `pass_of_known` and `pass_of_new` compute a pass from the outcome of the
checks.

`InBounds` says of a pass that decrypting a session key writes nothing behind the record's slot,
which the loop itself does not make sure of. The model leaves out what is written there, so a result
about other records, or about the addresses and ids of records, is one about passes in bounds.

`Core.WellFormed` is the invariant of the node table: a pass only adds a record for an address that
has none and never changes the address of a record (`Passing.wellFormed`), so every reachable table
is well-formed (`Reachable.wellFormed`), and a pass leaves the records of all other addresses alone
(`Passing.peer_of_ne`).
-/

set_option autoImplicit false
set_option relaxedAutoImplicit false

namespace Kapua

variable {PKey : Type} {ssl : OpenSSL PKey}

/-! ### Sending -/

/-- A record before `checkEncryption` is sent plaintext. -/
theorem sent_of_plain (ssl : OpenSSL PKey) {node : Node PKey}
    (hstate : ¬ NodeState.checkEncryption ≤ node.state) (pkt : Packet) (addr : Sockaddr)
    (draw : Draw PKey) :
    (send ssl (some node) pkt addr draw).sent = [⟨addr, pkt.datagram, pkt, none⟩] := by
  simp [send, hstate]

/-- Whatever `_send` hands to `sendto` is the packet it was given, for the address it was given. -/
theorem packet_of_mem_sent {node : Option (Node PKey)} {pkt : Packet} {addr : Sockaddr}
    {draw : Draw PKey} {out : Sent} (h : out ∈ (send ssl node pkt addr draw).sent) :
    out.packet = pkt ∧ out.addr = addr := by
  cases node with
  | none =>
    simp only [send, List.mem_singleton] at h
    simp [h]
  | some node =>
    simp only [send] at h
    split_ifs at h
    · cases hseal : aesEncrypt ssl node.aesContextTx draw.iv pkt.datagram with
      | none => simp [hseal] at h
      | some buffer =>
        simp only [hseal, List.mem_singleton] at h
        simp [h]
    · simp only [List.mem_singleton] at h
      simp [h]

/-! ### The checks of `_receive` -/

/-- The checks that follow the magic number check, and the size checks before it. -/
def passesHeader (myId : UInt64) (pkt : Packet) (size : ℕ) : Bool :=
  decide (kapuaHeaderSize ≤ size) && pkt.checkVersionValid && pkt.fromId != myId

/-- A packet is let through the magic number check as it is when it has the magic number, and also
when the sender has no record or one before `checkEncryption`. -/
theorem openPacket_plain (ssl : OpenSSL PKey) {node : Option (Node PKey)} {pkt : Packet}
    (h : pkt.checkMagicValid = true ∨
      ∀ record, node = some record → ¬ NodeState.checkEncryption ≤ record.state) (size : ℕ) :
    openPacket ssl node pkt size = ⟨true, pkt, none⟩ := by
  unfold openPacket
  rcases h with hmagic | hstate
  · rw [if_pos hmagic]
  · cases node with
    | none => simp
    | some record => simp only [if_neg (hstate record rfl), ite_self]

/-- A packet without the magic number from a peer whose record has reached `checkEncryption` is
refused when it does not decrypt. -/
theorem openPacket_undecrypted {record : Node PKey} {pkt : Packet} {size : ℕ}
    (hmagic : pkt.checkMagicValid = false) (hstate : NodeState.checkEncryption ≤ record.state)
    (hopen : aesDecrypt ssl record.aesContextRx (pkt.slice 0 size) = none) :
    openPacket ssl (some record) pkt size = ⟨false, pkt, some record.aesContextRx⟩ := by
  simp only [openPacket, hmagic, Bool.false_eq_true, if_false, if_pos hstate, hopen]

/-- A packet without the magic number from a peer whose record has reached `checkEncryption` is
overlaid with its plaintext when it decrypts, and then needs the magic number. -/
theorem openPacket_decrypted {record : Node PKey} {pkt : Packet} {size : ℕ} {plaintext : Bytes}
    (hmagic : pkt.checkMagicValid = false) (hstate : NodeState.checkEncryption ≤ record.state)
    (hopen : aesDecrypt ssl record.aesContextRx (pkt.slice 0 size) = some plaintext) :
    openPacket ssl (some record) pkt size =
      ⟨Packet.checkMagicValid (pkt.write 0 plaintext), pkt.write 0 plaintext,
        some record.aesContextRx⟩ := by
  simp only [openPacket, hmagic, Bool.false_eq_true, if_false, if_pos hstate, hopen]

/-- The checks of `_receive`, from the outcome of the magic number check. -/
theorem screen_eq (ssl : OpenSSL PKey) (myId : UInt64) (node : Option (Node PKey)) (pkt : Packet)
    {size : ℕ} (hsize : kapuaHeaderSize ≤ size) :
    screen ssl myId node pkt size =
      { openPacket ssl node pkt size with
        accepted := (openPacket ssl node pkt size).accepted &&
          passesHeader myId (openPacket ssl node pkt size).pkt size } := by
  have hpos : ¬ size ≤ 0 := by simp only [kapuaHeaderSize] at hsize; omega
  simp only [screen, if_neg hpos, if_neg (Nat.not_lt.mpr hsize), passesHeader, hsize]
  generalize openPacket ssl node pkt size = opened
  obtain ⟨accepted, opened, key⟩ := opened
  cases accepted <;> cases hversion : opened.checkVersionValid <;>
    by_cases hown : opened.fromId = myId <;> simp [hown]

/-- The checks decrypt only with the session key of the sender's record, in a state that
encrypts. -/
theorem key_of_screen {myId : UInt64} {node : Option (Node PKey)} {pkt : Packet} {size : ℕ}
    {key : AESKey} (h : (screen ssl myId node pkt size).key = some key) :
    ∃ record, node = some record ∧ NodeState.checkEncryption ≤ record.state ∧
      record.aesContextRx = key := by
  rcases Nat.lt_or_ge size kapuaHeaderSize with hshort | hsize
  · simp only [screen, hshort, if_true, ite_self] at h
    cases h
  · rw [screen_eq ssl myId node pkt hsize] at h
    by_cases hplain : pkt.checkMagicValid = true ∨
        ∀ record, node = some record → ¬ NodeState.checkEncryption ≤ record.state
    · rw [openPacket_plain ssl hplain] at h
      cases h
    · simp only [not_or, not_forall, Bool.not_eq_true, not_not] at hplain
      obtain ⟨hmagic, record, rfl, hstate⟩ := hplain
      refine ⟨record, rfl, hstate, ?_⟩
      cases hopen : aesDecrypt ssl record.aesContextRx (pkt.slice 0 size) with
      | none =>
        rw [openPacket_undecrypted hmagic hstate hopen] at h
        exact Option.some.inj h
      | some plaintext =>
        rw [openPacket_decrypted hmagic hstate hopen] at h
        exact Option.some.inj h

/-- A datagram shorter than a header is refused. -/
theorem screen_short (ssl : OpenSSL PKey) (myId : UInt64) (node : Option (Node PKey))
    (pkt : Packet) {size : ℕ} (hsize : size < kapuaHeaderSize) :
    screen ssl myId node pkt size = ⟨false, pkt, none⟩ := by
  simp only [screen, hsize, if_true, ite_self]

/-- The checks of `_receive` on a packet that is taken as it is. -/
theorem screen_plain (ssl : OpenSSL PKey) (myId : UInt64) {node : Option (Node PKey)}
    {pkt : Packet} (h : pkt.checkMagicValid = true ∨
      ∀ record, node = some record → ¬ NodeState.checkEncryption ≤ record.state) (size : ℕ) :
    screen ssl myId node pkt size = ⟨passesHeader myId pkt size, pkt, none⟩ := by
  rcases Nat.lt_or_ge size kapuaHeaderSize with hshort | hsize
  · simp [screen_short ssl myId node pkt hshort, passesHeader, Nat.not_le.mpr hshort]
  · simp [screen_eq ssl myId node pkt hsize, openPacket_plain ssl h]

/-! ### Handling a packet from a known node -/

variable (ssl) in
/-- The ways `_process_packet` handles a packet for a known node: the record afterwards and the
datagrams sent. -/
inductive Handling (myId : UInt64) (keys : KeyPair PKey) (node : Node PKey) (pkt : Packet)
    (draw : Draw PKey) : Node PKey → List Sent → Prop
  | ignored (hrequest : pkt.type ≠ some .publicKeyRequest)
      (hreply : pkt.type = some .publicKeyReply → node.state ≠ .keyExchange)
      (hcontext : pkt.type = some .encryptionContext → node.state ≠ .handshake)
      (hready : pkt.type = some .ready → node.state ≠ .checkEncryption) :
      Handling myId keys node pkt draw node []
  | request {reply : Packet} (htype : pkt.type = some .publicKeyRequest)
      (hreply : (Packet.construct draw.reply .publicKeyReply myId node.id).writePublicKey ssl keys =
        .ok reply) :
      Handling myId keys node pkt draw { node with state := .keyExchange }
        [⟨node.addr, reply.datagram, reply, none⟩]
  | unsealedReply {key : PKey} (htype : pkt.type = some .publicKeyReply)
      (hstate : node.state = .keyExchange) (hkey : pkt.readPublicKey ssl = .ok key)
      (hfail : encryptAesContext ssl draw.sessionKey (some key) kapuaMaxDataSize draw.padding =
        none) :
      Handling myId keys node pkt draw
        { node with keys := { node.keys with publicKey := some key },
                    aesContextTx := draw.sessionKey } []
  | reply {key : PKey} {encrypted : Bytes} {context : Packet}
      (htype : pkt.type = some .publicKeyReply) (hstate : node.state = .keyExchange)
      (hkey : pkt.readPublicKey ssl = .ok key)
      (hseal : encryptAesContext ssl draw.sessionKey (some key) kapuaMaxDataSize draw.padding =
        some encrypted)
      (hpacket : context = ((Packet.construct draw.reply .encryptionContext myId
        node.id).writeData encrypted).setLength encrypted.length) :
      Handling myId keys node pkt draw
        { node with keys := { node.keys with publicKey := some key },
                    aesContextTx := draw.sessionKey, state := .handshake }
        [⟨node.addr, context.datagram, context, none⟩]
  | refusedContext (htype : pkt.type = some .encryptionContext) (hstate : node.state = .handshake)
      (hfail : (decryptAesContext ssl keys.privateKey pkt.data draw.len).ok = false) :
      Handling myId keys node pkt draw
        { node with aesContextRx := node.aesContextRx.overwrite
                      (decryptAesContext ssl keys.privateKey pkt.data draw.len).written } []
  | context {after : Node PKey} (htype : pkt.type = some .encryptionContext)
      (hstate : node.state = .handshake)
      (hopen : (decryptAesContext ssl keys.privateKey pkt.data draw.len).ok = true)
      (hafter : after = { node with
        aesContextRx := node.aesContextRx.overwrite
          (decryptAesContext ssl keys.privateKey pkt.data draw.len).written
        state := .checkEncryption }) :
      Handling myId keys node pkt draw after
        (send ssl (some after) ((Packet.construct draw.reply .ready myId node.id).setLength 0)
          node.addr draw).sent
  | ready (htype : pkt.type = some .ready) (hstate : node.state = .checkEncryption) :
      Handling myId keys node pkt draw { node with state := .connected } []

/-- Every packet that `_process_packet` handles without an exception is handled in one of the ways
of `Handling`. -/
theorem handling_of_dispatch {myId : UInt64} {keys : KeyPair PKey} {node after : Node PKey}
    {pkt : Packet} {draw : Draw PKey} {sent : List Sent}
    (h : dispatch ssl myId keys node pkt draw = .ok (after, sent)) :
    Handling ssl myId keys node pkt draw after sent := by
  have hignore : ∀ {type : Option PacketType}, pkt.type = type → type ≠ some .publicKeyRequest →
      (type = some .publicKeyReply → node.state ≠ .keyExchange) →
      (type = some .encryptionContext → node.state ≠ .handshake) →
      (type = some .ready → node.state ≠ .checkEncryption) →
      Except.ok (ε := String) (node, ([] : List Sent)) = .ok (after, sent) →
        Handling ssl myId keys node pkt draw after sent := by
    rintro type rfl hrequest hreply hcontext hready heq
    obtain ⟨rfl, rfl⟩ := Prod.mk.inj (Except.ok.inj heq)
    exact .ignored hrequest hreply hcontext hready
  unfold dispatch at h
  split at h
  case h_1 htype => exact hignore htype (by simp) (by simp) (by simp) (by simp) h
  case h_2 htype =>
    unfold onPublicKeyRequest at h
    split at h
    · cases h
    · rename_i reply hreply
      dsimp only at h
      rw [sent_of_plain ssl (by simp)] at h
      obtain ⟨rfl, rfl⟩ := Prod.mk.inj (Except.ok.inj h)
      exact .request htype hreply
  case h_3 htype =>
    unfold onPublicKeyReply at h
    split_ifs at h with hstate
    · exact hignore htype (by simp) (fun _ ↦ hstate) (by simp) (by simp) h
    · rw [not_not] at hstate
      split at h
      · cases h
      · rename_i key hkey
        dsimp only at h
        split at h
        · rename_i hfail
          obtain ⟨rfl, rfl⟩ := Prod.mk.inj (Except.ok.inj h)
          exact .unsealedReply htype hstate hkey hfail
        · rename_i encrypted hseal
          rw [sent_of_plain ssl (by simp)] at h
          obtain ⟨rfl, rfl⟩ := Prod.mk.inj (Except.ok.inj h)
          exact .reply htype hstate hkey hseal rfl
  case h_4 htype =>
    unfold onEncryptionContext at h
    dsimp only at h
    split_ifs at h with hstate hopen
    · exact hignore htype (by simp) (by simp) (fun _ ↦ hstate) (by simp) h
    · obtain ⟨rfl, rfl⟩ := Prod.mk.inj (Except.ok.inj h)
      exact .refusedContext htype (not_not.mp hstate) (by simpa using hopen)
    · obtain ⟨rfl, rfl⟩ := Prod.mk.inj (Except.ok.inj h)
      exact .context htype (not_not.mp hstate) (by simpa using hopen) rfl
  case h_5 htype =>
    unfold onReady at h
    split_ifs at h with hstate
    · exact hignore htype (by simp) (by simp) (by simp) (fun _ ↦ hstate) h
    · obtain ⟨rfl, rfl⟩ := Prod.mk.inj (Except.ok.inj h)
      exact .ready htype (not_not.mp hstate)
  case h_6 htype => exact hignore htype (by simp) (by simp) (by simp) (by simp) h
  case h_7 htype => exact hignore htype (by simp) (by simp) (by simp) (by simp) h

namespace Handling

variable {myId : UInt64} {keys : KeyPair PKey} {node after : Node PKey} {pkt : Packet}
  {draw : Draw PKey} {sent : List Sent}

/-- A packet that can be handled in one of the ways of `Handling` is handled in that way. -/
theorem dispatch_eq (h : Handling ssl myId keys node pkt draw after sent) :
    dispatch ssl myId keys node pkt draw = .ok (after, sent) := by
  unfold dispatch
  cases h with
  | ignored hrequest hreply hcontext hready =>
    split
    case h_2 htype => exact absurd htype hrequest
    case h_3 htype => rw [onPublicKeyReply, if_pos (hreply htype)]
    case h_4 htype => rw [onEncryptionContext, if_pos (hcontext htype)]
    case h_5 htype => rw [onReady, if_pos (hready htype)]
    all_goals rfl
  | request htype hreply =>
    simp only [htype, onPublicKeyRequest, hreply]
    rw [sent_of_plain ssl (by simp)]
  | unsealedReply htype hstate hkey hfail =>
    simp only [htype, onPublicKeyReply, hstate, ne_eq, not_true, if_false, hkey, hfail]
  | reply htype hstate hkey hseal hpacket =>
    simp only [htype, onPublicKeyReply, hstate, ne_eq, not_true, if_false, hkey, hseal, hpacket]
    rw [sent_of_plain ssl (by simp)]
  | refusedContext htype hstate hfail =>
    simp only [htype, onEncryptionContext, hstate, ne_eq, not_true, if_false, hfail,
      Bool.not_false, if_true]
  | context htype hstate hopen hafter =>
    simp only [htype, onEncryptionContext, hstate, ne_eq, not_true, if_false, hopen,
      Bool.not_true, Bool.false_eq_true, hafter]
  | ready htype hstate =>
    simp only [htype, onReady, hstate, ne_eq, not_true, if_false]

/-- Handling a packet does not change which peer the record is for. -/
theorem addr (h : Handling ssl myId keys node pkt draw after sent) : after.addr = node.addr := by
  cases h with
  | context _ _ _ hafter => rw [hafter]
  | _ => rfl

/-- Whatever handling a packet sends, it sends to the peer of the record. -/
theorem addr_of_mem (h : Handling ssl myId keys node pkt draw after sent) {out : Sent}
    (hout : out ∈ sent) : out.addr = node.addr := by
  cases h with
  | request => rw [List.mem_singleton.mp hout]
  | reply => rw [List.mem_singleton.mp hout]
  | context => exact (packet_of_mem_sent hout).2
  | _ => simp at hout

end Handling

/-! ### A pass -/

variable (ssl) in
/-- The outcome of the checks of `_receive` on what `recvfrom` delivered. -/
def screened (s : LoopState PKey) (arrived : Arrived) : Screened :=
  screen ssl s.core.myId (s.core.peer arrived.fromAddr) arrived.pkt arrived.size

/-- The checks on a packet from a peer whose record is before `checkEncryption`. -/
theorem screened_of_unsealed (ssl : OpenSSL PKey) {s : LoopState PKey} (arrived : Arrived)
    {node : Node PKey} (hpeer : s.core.peer arrived.fromAddr = some node)
    (hstate : ¬ NodeState.checkEncryption ≤ node.state) : screened ssl s arrived =
      ⟨passesHeader s.core.myId arrived.pkt arrived.size, arrived.pkt, none⟩ := by
  refine screen_plain ssl s.core.myId (Or.inr fun record hrecord ↦ ?_) arrived.size
  rw [hpeer] at hrecord
  obtain rfl := Option.some.inj hrecord
  exact hstate

variable (ssl) in
/-- How the checks of `_receive` let a datagram through: the packet they hand on and the bytes it
consists of, the bytes received or the plaintext. -/
inductive Acceptance (s : LoopState PKey) (arrived : Arrived) : Packet → Bytes → Prop
  | plain (hplain : arrived.pkt.checkMagicValid = true ∨ ∀ record,
        s.core.peer arrived.fromAddr = some record → ¬ NodeState.checkEncryption ≤ record.state)
      (hpasses : passesHeader s.core.myId arrived.pkt arrived.size = true) :
      Acceptance s arrived arrived.pkt (arrived.pkt.slice 0 arrived.size)
  | decrypted {record : Node PKey} {plaintext : Bytes} {pkt : Packet}
      (hmagic : arrived.pkt.checkMagicValid = false)
      (hpeer : s.core.peer arrived.fromAddr = some record)
      (hstate : NodeState.checkEncryption ≤ record.state)
      (hopen : aesDecrypt ssl record.aesContextRx (arrived.pkt.slice 0 arrived.size) =
        some plaintext)
      (hpkt : pkt = arrived.pkt.write 0 plaintext) (hvalid : pkt.checkMagicValid = true)
      (hpasses : passesHeader s.core.myId pkt arrived.size = true) :
      Acceptance s arrived pkt plaintext

/-- A packet that passes the header checks has the size of a header. -/
theorem size_of_passesHeader {myId : UInt64} {pkt : Packet} {size : ℕ}
    (h : passesHeader myId pkt size = true) : kapuaHeaderSize ≤ size := by
  simp only [passesHeader, Bool.and_eq_true, decide_eq_true_eq] at h
  exact h.1.1

/-- A packet that is let through has the size of a header. -/
theorem size_of_accepted {s : LoopState PKey} {arrived : Arrived}
    (h : (screened ssl s arrived).accepted = true) : kapuaHeaderSize ≤ arrived.size := by
  by_contra hshort
  rw [screened, screen_short ssl _ _ _ (not_le.mp hshort)] at h
  cases h

/-- What the checks let through, they let through in one of the two ways. -/
theorem acceptance_of_accepted {s : LoopState PKey} {arrived : Arrived}
    (h : (screened ssl s arrived).accepted = true) :
    ∃ meaningful, Acceptance ssl s arrived (screened ssl s arrived).pkt meaningful := by
  have hsize := size_of_accepted h
  by_cases hplain : arrived.pkt.checkMagicValid = true ∨ ∀ record,
      s.core.peer arrived.fromAddr = some record → ¬ NodeState.checkEncryption ≤ record.state
  · rw [screened, screen_plain ssl _ hplain] at h ⊢
    exact ⟨_, .plain hplain h⟩
  · simp only [not_or, not_forall, Bool.not_eq_true, not_not] at hplain
    obtain ⟨hmagic, record, hpeer, hstate⟩ := hplain
    rw [screened, screen_eq ssl _ _ _ hsize, hpeer] at h ⊢
    cases hopen : aesDecrypt ssl record.aesContextRx (arrived.pkt.slice 0 arrived.size) with
    | none =>
      rw [openPacket_undecrypted hmagic hstate hopen] at h
      cases h
    | some plaintext =>
      rw [openPacket_decrypted hmagic hstate hopen] at h ⊢
      obtain ⟨hvalid, hpasses⟩ := Bool.and_eq_true_iff.mp h
      exact ⟨plaintext, .decrypted hmagic hpeer hstate hopen rfl hvalid hpasses⟩

/-- What can be let through in one of the two ways is let through, with that packet. -/
theorem Acceptance.screened_eq {s : LoopState PKey} {arrived : Arrived} {pkt : Packet}
    {meaningful : Bytes} (h : Acceptance ssl s arrived pkt meaningful) :
    (screened ssl s arrived).accepted = true ∧ (screened ssl s arrived).pkt = pkt := by
  cases h with
  | plain hplain hpasses =>
    rw [screened, screen_plain ssl _ hplain]
    exact ⟨hpasses, rfl⟩
  | decrypted hmagic hpeer hstate hopen hpkt hvalid hpasses =>
    subst hpkt
    rw [screened, screen_eq ssl _ _ _ (size_of_passesHeader hpasses), hpeer,
      openPacket_decrypted hmagic hstate hopen]
    exact ⟨Bool.and_eq_true_iff.mpr ⟨hvalid, hpasses⟩, rfl⟩

/-- The record `_receive` creates for a new sender. -/
def freshNode (pkt : Packet) (addr : Sockaddr) (draw : Draw PKey) : Node PKey :=
  Node.construct draw.node pkt.fromId addr

/-- The `PublicKeyRequest` that `_receive` sends to a new sender. -/
def firstRequest (myId : UInt64) (pkt : Packet) (addr : Sockaddr) (draw : Draw PKey) : Sent :=
  ⟨addr, (Packet.construct draw.rpkPkt .publicKeyRequest myId pkt.fromId).datagram,
    Packet.construct draw.rpkPkt .publicKeyRequest myId pkt.fromId, none⟩

variable (ssl) in
/-- What a pass that returns did: the loop state afterwards and the datagrams sent. -/
inductive Passing (s : LoopState PKey) (arrival : Arrival) (draw : Draw PKey) :
    LoopState PKey → List Sent → Prop
  | idle (hrecv : recvfrom s arrival draw = none) : Passing s arrival draw s []
  | rejected {arrived : Arrived} (hrecv : recvfrom s arrival draw = some arrived)
      (hscreen : (screened ssl s arrived).accepted = false) :
      Passing s arrival draw ⟨s.core, (screened ssl s arrived).pkt, arrived.fromAddr⟩ []
  | known {arrived : Arrived} {ptr : NodePtr} {node : Node PKey} {sent : List Sent}
      (hrecv : recvfrom s arrival draw = some arrived)
      (hscreen : (screened ssl s arrived).accepted = true)
      (hfind : s.core.findNode arrived.fromAddr = some ptr)
      (hhandled : Handling ssl s.core.myId s.core.keys
        ((s.core.heap ptr).updateLastContact draw.now) (screened ssl s arrived).pkt draw node
        sent) :
      Passing s arrival draw
        ⟨s.core.setNode ptr node, (screened ssl s arrived).pkt, arrived.fromAddr⟩ sent
  | new {arrived : Arrived} {core : Core PKey} {node : Node PKey} {sent : List Sent}
      (hrecv : recvfrom s arrival draw = some arrived)
      (hscreen : (screened ssl s arrived).accepted = true)
      (hfind : s.core.findNode arrived.fromAddr = none)
      (hcore : core = (s.core.addNode draw.node (screened ssl s arrived).pkt.fromId
        arrived.fromAddr).1)
      (hhandled : Handling ssl s.core.myId s.core.keys
        ((freshNode (screened ssl s arrived).pkt arrived.fromAddr draw).updateLastContact draw.now)
        (screened ssl s arrived).pkt draw node sent) :
      Passing s arrival draw
        ⟨core.setNode s.core.next node, (screened ssl s arrived).pkt, arrived.fromAddr⟩
        (firstRequest s.core.myId (screened ssl s arrived).pkt arrived.fromAddr draw :: sent)

/-- What `recvfrom` delivers for a datagram. -/
def arrivedDatagram (s : LoopState PKey) (addr : Sockaddr) (bytes : Bytes) (draw : Draw PKey) :
    Arrived :=
  ⟨Memory.write (fun i ↦ if i < kapuaMaxPacketSize then s.pkt i else draw.behind i) 0
    (bytes.take kapuaMaxPacketSize), addr, (bytes.take kapuaMaxPacketSize).length⟩

theorem recvfrom_datagram (s : LoopState PKey) (addr : Sockaddr) (bytes : Bytes)
    (draw : Draw PKey) :
    recvfrom s (.datagram addr bytes) draw = some (arrivedDatagram s addr bytes draw) := rfl

section PassEquations

variable {s : LoopState PKey} {arrival : Arrival} {draw : Draw PKey} {arrived : Arrived}
  (hrecv : recvfrom s arrival draw = some arrived)

include hrecv

/-- What `_receive` returns once `recvfrom` has delivered something. -/
theorem receive_of_arrived : receive ssl s arrival draw =
    if (screened ssl s arrived).accepted then
      match s.core.findNode arrived.fromAddr with
      | some ptr => ⟨true, some ptr, ⟨s.core, (screened ssl s arrived).pkt, arrived.fromAddr⟩, [],
          (screened ssl s arrived).key⟩
      | none => ⟨true, some s.core.next,
          ⟨(s.core.addNode draw.node (screened ssl s arrived).pkt.fromId arrived.fromAddr).1,
            (screened ssl s arrived).pkt, arrived.fromAddr⟩,
          [firstRequest s.core.myId (screened ssl s arrived).pkt arrived.fromAddr draw],
          (screened ssl s arrived).key⟩
    else ⟨false, s.core.findNode arrived.fromAddr,
      ⟨s.core, (screened ssl s arrived).pkt, arrived.fromAddr⟩, [],
      (screened ssl s arrived).key⟩ := by
  unfold receive
  simp only [hrecv]
  rw [← screened]
  cases (screened ssl s arrived).accepted with
  | false => rfl
  | true =>
    cases s.core.findNode arrived.fromAddr with
    | some ptr => rfl
    | none =>
      have hplain : ¬ NodeState.checkEncryption ≤
          (draw.node.construct (screened ssl s arrived).pkt.fromId arrived.fromAddr).state := by
        simp [Node.construct]
      simp [sent_of_plain ssl hplain, firstRequest]

/-- `_receive` returns what the checks say. -/
theorem receive_accepted :
    (receive ssl s arrival draw).accepted = (screened ssl s arrived).accepted := by
  rw [receive_of_arrived hrecv]
  cases (screened ssl s arrived).accepted with
  | false => rfl
  | true => cases s.core.findNode arrived.fromAddr <;> rfl

/-- `_receive` leaves the packet buffer as the checks do. -/
theorem receive_pkt : (receive ssl s arrival draw).loop.pkt = (screened ssl s arrived).pkt := by
  rw [receive_of_arrived hrecv]
  cases (screened ssl s arrived).accepted with
  | false => rfl
  | true => cases s.core.findNode arrived.fromAddr <;> rfl

/-- `_receive` fills in the sender's address, and decrypts only in the checks. -/
theorem receive_fromAddr_key : (receive ssl s arrival draw).loop.fromAddr = arrived.fromAddr ∧
    (receive ssl s arrival draw).key = (screened ssl s arrived).key := by
  rw [receive_of_arrived hrecv]
  cases (screened ssl s arrived).accepted with
  | false => exact ⟨rfl, rfl⟩
  | true => cases s.core.findNode arrived.fromAddr <;> exact ⟨rfl, rfl⟩

/-- A pass whose packet fails the checks. -/
theorem pass_of_rejected (hscreen : (screened ssl s arrived).accepted = false) :
    pass ssl s arrival draw =
      .ok (⟨s.core, (screened ssl s arrived).pkt, arrived.fromAddr⟩, []) := by
  simp [pass, receive_of_arrived hrecv, hscreen]

/-- A pass over an accepted packet from a known sender. -/
theorem pass_of_known (hscreen : (screened ssl s arrived).accepted = true) {ptr : NodePtr}
    (hfind : s.core.findNode arrived.fromAddr = some ptr) :
    pass ssl s arrival draw =
      match dispatch ssl s.core.myId s.core.keys ((s.core.heap ptr).updateLastContact draw.now)
        (screened ssl s arrived).pkt draw with
      | .error what => .error what
      | .ok (node, sent) =>
        .ok (⟨s.core.setNode ptr node, (screened ssl s arrived).pkt, arrived.fromAddr⟩, sent) := by
  simp only [pass, receive_of_arrived hrecv, hscreen, if_true, hfind, processPacket,
    List.nil_append]
  cases dispatch ssl s.core.myId s.core.keys ((s.core.heap ptr).updateLastContact draw.now)
    (screened ssl s arrived).pkt draw <;> rfl

/-- A pass over an accepted packet from a new sender. -/
theorem pass_of_new (hscreen : (screened ssl s arrived).accepted = true)
    (hfind : s.core.findNode arrived.fromAddr = none) :
    pass ssl s arrival draw =
      match dispatch ssl s.core.myId s.core.keys
        ((freshNode (screened ssl s arrived).pkt arrived.fromAddr draw).updateLastContact draw.now)
        (screened ssl s arrived).pkt draw with
      | .error what => .error what
      | .ok (node, sent) =>
        .ok (⟨(s.core.addNode draw.node (screened ssl s arrived).pkt.fromId
            arrived.fromAddr).1.setNode s.core.next node, (screened ssl s arrived).pkt,
            arrived.fromAddr⟩,
          firstRequest s.core.myId (screened ssl s arrived).pkt arrived.fromAddr draw :: sent) := by
  simp only [pass, receive_of_arrived hrecv, hscreen, if_true, hfind, processPacket,
    Core.addNode_heap_next, Core.addNode_myId, Core.addNode_keys, freshNode]
  cases dispatch ssl s.core.myId s.core.keys
    ((draw.node.construct (screened ssl s arrived).pkt.fromId
      arrived.fromAddr).updateLastContact draw.now) (screened ssl s arrived).pkt draw <;> rfl

end PassEquations

/-- Every pass that returns did one of the things `Passing` lists. -/
theorem passing_of_pass {s after : LoopState PKey} {arrival : Arrival} {draw : Draw PKey}
    {sent : List Sent} (h : pass ssl s arrival draw = .ok (after, sent)) :
    Passing ssl s arrival draw after sent := by
  cases hrecv : recvfrom s arrival draw with
  | none =>
    simp only [pass, receive, hrecv, Bool.false_eq_true, if_false, Except.ok.injEq,
      Prod.mk.injEq] at h
    obtain ⟨rfl, rfl⟩ := h
    exact .idle hrecv
  | some arrived =>
    cases hscreen : (screened ssl s arrived).accepted with
    | false =>
      rw [pass_of_rejected hrecv hscreen] at h
      obtain ⟨rfl, rfl⟩ := Prod.mk.inj (Except.ok.inj h)
      exact .rejected hrecv hscreen
    | true =>
      cases hfind : s.core.findNode arrived.fromAddr with
      | some ptr =>
        rw [pass_of_known hrecv hscreen hfind] at h
        split at h
        · cases h
        · rename_i node out hdispatch
          obtain ⟨rfl, rfl⟩ := Prod.mk.inj (Except.ok.inj h)
          exact .known hrecv hscreen hfind (handling_of_dispatch hdispatch)
      | none =>
        rw [pass_of_new hrecv hscreen hfind] at h
        split at h
        · cases h
        · rename_i node out hdispatch
          obtain ⟨rfl, rfl⟩ := Prod.mk.inj (Except.ok.inj h)
          exact .new hrecv hscreen hfind rfl (handling_of_dispatch hdispatch)

/-! ### The record a packet is handled for -/

variable (ssl) in
/-- The record an accepted packet is handled for: the one found for its sender, or a new one. -/
def handledNode (s : LoopState PKey) (arrived : Arrived) (draw : Draw PKey) : Node PKey :=
  (s.core.peer arrived.fromAddr).getD
    (freshNode (screened ssl s arrived).pkt arrived.fromAddr draw)

variable (ssl) in
/-- What `_receive` sends before an accepted packet is handled. -/
def requests (s : LoopState PKey) (arrived : Arrived) (draw : Draw PKey) : List Sent :=
  match s.core.peer arrived.fromAddr with
  | some _ => []
  | none => [firstRequest s.core.myId (screened ssl s arrived).pkt arrived.fromAddr draw]

section Handled

variable {s after : LoopState PKey} {arrival : Arrival} {draw : Draw PKey} {sent : List Sent}
  {arrived : Arrived} (hrecv : recvfrom s arrival draw = some arrived)

include hrecv

/-- A pass over a packet that fails the checks leaves the node table and sends nothing. -/
theorem Passing.refused (h : Passing ssl s arrival draw after sent)
    (hscreen : (screened ssl s arrived).accepted = false) : after.core = s.core ∧ sent = [] := by
  cases h with
  | idle => exact ⟨rfl, rfl⟩
  | rejected => exact ⟨rfl, rfl⟩
  | known hrecv' hscreen' =>
    obtain rfl := Option.some.inj (hrecv.symm.trans hrecv')
    exact absurd (hscreen.symm.trans hscreen') (by simp)
  | new hrecv' hscreen' =>
    obtain rfl := Option.some.inj (hrecv.symm.trans hrecv')
    exact absurd (hscreen.symm.trans hscreen') (by simp)

variable (hscreen : (screened ssl s arrived).accepted = true)

include hscreen

/-- What a pass over an accepted packet did to the sender's record, whether it was there or not. -/
theorem Passing.handled (h : Passing ssl s arrival draw after sent) :
    ∃ node out, Handling ssl s.core.myId s.core.keys
        ((handledNode ssl s arrived draw).updateLastContact draw.now) (screened ssl s arrived).pkt
        draw node out ∧
      after.core.peer arrived.fromAddr = some node ∧ sent = requests ssl s arrived draw ++ out := by
  cases h with
  | idle hrecv' => exact absurd (hrecv.symm.trans hrecv') (by simp)
  | rejected hrecv' hscreen' =>
    obtain rfl := Option.some.inj (hrecv.symm.trans hrecv')
    exact absurd (hscreen.symm.trans hscreen') (by simp)
  | known hrecv' _ hfind hhandled =>
    obtain rfl := Option.some.inj (hrecv.symm.trans hrecv')
    refine ⟨_, sent, ?_, Core.peer_setNode_self hfind _, ?_⟩
    · simpa [handledNode, hfind] using hhandled
    · simp [requests, hfind]
  | @new _ _ _ out hrecv' _ hfind hcore hhandled =>
    obtain rfl := Option.some.inj (hrecv.symm.trans hrecv')
    subst hcore
    refine ⟨_, out, ?_, Core.peer_setNode_self (by simp [Core.addNode_findNode hfind]) _, ?_⟩
    · simpa [handledNode, hfind] using hhandled
    · simp [requests, hfind]

end Handled

/-! ### Invariants of the loop -/

namespace Passing

variable {s after : LoopState PKey} {arrival : Arrival} {draw : Draw PKey} {sent : List Sent}

/-- The own id never changes. -/
theorem myId_eq (h : Passing ssl s arrival draw after sent) : after.core.myId = s.core.myId := by
  cases h with
  | new _ _ _ hcore _ => simp [hcore]
  | _ => rfl

/-- The own key pair never changes. -/
theorem keys_eq (h : Passing ssl s arrival draw after sent) : after.core.keys = s.core.keys := by
  cases h with
  | new _ _ _ hcore _ => simp [hcore]
  | _ => rfl

/-- A pass keeps the node table well-formed. -/
theorem wellFormed (h : Passing ssl s arrival draw after sent) (hs : s.core.WellFormed) :
    after.core.WellFormed := by
  cases h with
  | idle => exact hs
  | rejected => exact hs
  | known _ _ hfind hhandled => exact hs.setNode hhandled.addr
  | new _ _ hfind hcore hhandled =>
    subst hcore
    refine (hs.addNode hfind draw.node _).setNode ?_
    rw [Core.addNode_heap_next]
    exact hhandled.addr

/-- A pass leaves the records of every address but the sender's. -/
theorem peer_of_ne (h : Passing ssl s arrival draw after sent) (hs : s.core.WellFormed)
    {arrived : Arrived} (hrecv : recvfrom s arrival draw = some arrived) {addr : Sockaddr}
    (hne : addr ≠ arrived.fromAddr) : after.core.peer addr = s.core.peer addr := by
  cases h with
  | idle => rfl
  | rejected => rfl
  | known hrecv' _ hfind _ =>
    obtain rfl := Option.some.inj (hrecv.symm.trans hrecv')
    exact hs.peer_setNode_of_ne hfind hne _
  | new hrecv' _ hfind hcore _ =>
    obtain rfl := Option.some.inj (hrecv.symm.trans hrecv')
    subst hcore
    have hadded : (s.core.addNode draw.node (screened ssl s arrived).pkt.fromId
        arrived.fromAddr).1.findNode arrived.fromAddr = some s.core.next := by
      rw [Core.addNode_findNode hfind, if_pos rfl]
    rw [(hs.addNode hfind draw.node _).peer_setNode_of_ne hadded hne,
      hs.peer_addNode_of_ne hfind _ _ hne]

end Passing

variable (ssl) in
/-- A pass over one input that returns. -/
def Passes (s : LoopState PKey) (input : Arrival × Draw PKey) (after : LoopState PKey) : Prop :=
  ∃ sent, pass ssl s input.1 input.2 = .ok (after, sent)

variable (ssl) in
/-- The pass writes no memory but its own: where an `EncryptionContext` that passes the header
checks comes from a peer in `handshake`, what `EVP_PKEY_decrypt` writes of it fits the session key
slot. -/
def InBounds (s : LoopState PKey) (input : Arrival × Draw PKey) : Prop :=
  ∀ arrived node key plaintext, recvfrom s input.1 input.2 = some arrived →
    s.core.peer arrived.fromAddr = some node → node.state = .handshake →
    passesHeader s.core.myId arrived.pkt arrived.size = true →
    arrived.pkt.type = some .encryptionContext → s.core.keys.privateKey = some key →
    ssl.evpPkeyDecrypt key input.2.len arrived.pkt.data = some plaintext → plaintext.length ≤ 32

variable (ssl) in
/-- A pass over one input that returns and writes no memory but its own. -/
def BoundedPass (s : LoopState PKey) (input : Arrival × Draw PKey) (after : LoopState PKey) :
    Prop :=
  Passes ssl s input after ∧ InBounds ssl s input

/-- A pass is in bounds exactly when `decrypt_aes_context` writes no more than the slot has room
for, whatever packet `_receive` has accepted. -/
theorem inBounds_iff {s : LoopState PKey} {input : Arrival × Draw PKey} : InBounds ssl s input ↔
    ∀ arrived node, recvfrom s input.1 input.2 = some arrived →
      (screened ssl s arrived).accepted = true → s.core.peer arrived.fromAddr = some node →
      (screened ssl s arrived).pkt.type = some .encryptionContext → node.state = .handshake →
      (decryptAesContext ssl s.core.keys.privateKey (screened ssl s arrived).pkt.data
        input.2.len).written.length ≤ 32 := by
  constructor
  · intro h arrived node hrecv haccepted hpeer htype hstate
    -- nothing is decrypted with the session key before `checkEncryption`
    rw [screened_of_unsealed ssl arrived hpeer (by rw [hstate]; decide)] at haccepted htype ⊢
    unfold decryptAesContext
    cases hkey : s.core.keys.privateKey with
    | none => simp
    | some key =>
      dsimp only
      cases hopen : ssl.evpPkeyDecrypt key input.2.len arrived.pkt.data with
      | none => simp
      | some plaintext =>
        exact h arrived node key plaintext hrecv hpeer hstate haccepted htype hkey hopen
  · intro h arrived node key plaintext hrecv hpeer hstate hheader htype hkey hopen
    have hwritten := h arrived node hrecv
    rw [screened_of_unsealed ssl arrived hpeer (by rw [hstate]; decide)] at hwritten
    simpa only [decryptAesContext, hkey, hopen] using hwritten hheader hpeer htype hstate

/-- A pass over anything but an `EncryptionContext` is in bounds. -/
theorem inBounds_of_type {s : LoopState PKey} {input : Arrival × Draw PKey} {arrived : Arrived}
    (hrecv : recvfrom s input.1 input.2 = some arrived)
    (htype : arrived.pkt.type ≠ some .encryptionContext) : InBounds ssl s input := by
  intro arrived' node key plaintext hrecv' _ _ _ htype'
  obtain rfl := Option.some.inj (hrecv.symm.trans hrecv')
  exact absurd htype' htype

/-- A pass over a datagram from an address whose record is not in `handshake` is in bounds. -/
theorem inBounds_of_state {s : LoopState PKey} {input : Arrival × Draw PKey} {arrived : Arrived}
    (hrecv : recvfrom s input.1 input.2 = some arrived)
    (hstate : ∀ node, s.core.peer arrived.fromAddr = some node → node.state ≠ .handshake) :
    InBounds ssl s input := by
  intro arrived' node key plaintext hrecv' hpeer hnode
  obtain rfl := Option.some.inj (hrecv.symm.trans hrecv')
  exact absurd hnode (hstate node hpeer)

variable (ssl) in
/-- The states the receive loop reaches from an empty node table by passes in bounds. -/
def ReachableInBounds (s : LoopState PKey) : Prop :=
  ∃ start inputs, start.core.Empty ∧ Run (BoundedPass ssl) start inputs s

/-- A pass over a datagram from an address without a record is in bounds. -/
theorem inBounds_of_unknown {s : LoopState PKey} {addr : Sockaddr}
    (hfind : s.core.findNode addr = none) (bytes : Bytes) (draw : Draw PKey) :
    InBounds ssl s (.datagram addr bytes, draw) := by
  refine inBounds_of_state (recvfrom_datagram s addr bytes draw) fun node hpeer ↦ ?_
  rw [show (arrivedDatagram s addr bytes draw).fromAddr = addr from rfl,
    Core.peer_of_not_find hfind] at hpeer
  cases hpeer

/-- A run of the loop that returns consists of passes that return. -/
theorem run_of_runLoop {s final : LoopState PKey} {inputs : List (Arrival × Draw PKey)}
    (h : runLoop ssl s inputs = .ok final) : Run (Passes ssl) s inputs final := by
  induction inputs generalizing s with
  | nil =>
    obtain rfl := Except.ok.inj h
    exact .nil s
  | cons input rest ih =>
    unfold runLoop at h
    split at h
    · cases h
    · rename_i next sent hpass
      exact .cons ⟨sent, hpass⟩ (ih h)

/-- Every reachable node table is well-formed. -/
theorem Reachable.wellFormed {s : LoopState PKey} (h : Reachable ssl s) : s.core.WellFormed := by
  obtain ⟨start, inputs, hempty, hrun⟩ := h
  exact (run_of_runLoop hrun).invariant (fun s ↦ s.core.WellFormed)
    (fun hs ⟨_, hpass⟩ ↦ (passing_of_pass hpass).wellFormed hs) hempty.wellFormed

/-- What did not fail returned something. -/
theorem exists_of_isOk {Error Result : Type} {outcome : Except Error Result}
    (h : outcome.isOk = true) : ∃ result, outcome = .ok result := by
  cases outcome with
  | error what => simp [Except.isOk, Except.toBool] at h
  | ok result => exact ⟨result, rfl⟩

/-- An outcome that has a result returned it. -/
theorem eq_ok_of_toOption {Error Result : Type} {outcome : Except Error Result} {result : Result}
    (h : outcome.toOption = some result) : outcome = .ok result := by
  cases outcome with
  | error what => cases h
  | ok value =>
    obtain rfl := Option.some.inj h
    rfl

/-- What returned something that passes a check returned something. -/
theorem exists_of_any {Error Result : Type} {outcome : Except Error Result}
    {check : Result → Bool} (h : outcome.toOption.any check = true) :
    ∃ result, outcome = .ok result ∧ check result = true := by
  obtain ⟨result, hresult, hcheck⟩ := (Option.any_eq_true _ _).mp h
  exact ⟨result, eq_ok_of_toOption hresult, hcheck⟩

/-- A run from an empty node table that returns and ends in a state with a decidable property
exhibits a reachable state with that property. -/
theorem exists_reachable (ssl : OpenSSL PKey) {start : LoopState PKey} (hstart : start.core.Empty)
    (inputs : List (Arrival × Draw PKey)) (check : LoopState PKey → Bool)
    (h : (runLoop ssl start inputs).toOption.any check = true) :
    ∃ s, Reachable ssl s ∧ check s = true := by
  obtain ⟨s, hrun, hcheck⟩ := exists_of_any h
  exact ⟨s, ⟨start, inputs, hstart, hrun⟩, hcheck⟩

end Kapua
