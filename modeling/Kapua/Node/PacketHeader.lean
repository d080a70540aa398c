import Kapua.Foundation.FieldLayout
import Kapua.Node.PacketFront

/-!
# The header of a packet

The nine packed fields of `Packet` before `data`, as a layout: no two overlap and together they are
the first `kapuaHeaderSize` bytes. So the header is a record of independent fields and nothing else
(`header_roundTrip`): every choice of contents is the header of some packet, two packets with the
same contents have the same bytes, and what `recvfrom` delivers of a packet that was sent as it is
has the contents of the sender, whatever the receiver's buffer held.

`constructed` is what the constructor of three arguments leaves in the fields. It assigns seven; the
packet id and the request id are those of the storage.
-/

set_option autoImplicit false
set_option relaxedAutoImplicit false

namespace Kapua

/-- The fields of `Packet` before `data`, in their order. -/
inductive HeaderField
  | magic
  | version
  | type
  | packetId
  | fromId
  | toId
  | ttl
  | requestId
  | length
  deriving DecidableEq

namespace HeaderField

/-- `offsetof` of a field of the packed struct. -/
def offset : HeaderField → ℕ
  | magic => 0
  | version => 5
  | type => 8
  | packetId => 10
  | fromId => 18
  | toId => 26
  | ttl => 34
  | requestId => 36
  | length => 44

/-- `sizeof` of a field. -/
def width : HeaderField → ℕ
  | magic => 5
  | version => 3
  | type | ttl | length => 2
  | packetId | fromId | toId | requestId => 8

/-- The fields in their order. -/
def all : List HeaderField :=
  [magic, version, type, packetId, fromId, toId, ttl, requestId, length]

theorem mem_all (field : HeaderField) : field ∈ all := by cases field <;> decide

theorem nodup_all : all.Nodup := by decide

/-- Every byte of the header belongs to a field. -/
theorem exists_mem_field : ∀ place < kapuaHeaderSize,
    ∃ field ∈ all, offset field ≤ place ∧ place < offset field + width field := by
  decide

end HeaderField

/-- The layout of the header. -/
def headerLayout : Layout HeaderField where
  offset := HeaderField.offset
  width := HeaderField.width
  size := kapuaHeaderSize
  disjoint := fun {first second} ↦ by cases first <;> cases second <;> decide
  within := fun field ↦ by cases field <;> decide
  covers := fun {place} hplace ↦ by
    obtain ⟨field, -, hfield⟩ := HeaderField.exists_mem_field place hplace
    exact ⟨field, hfield⟩

namespace Packet

/-! ### What is assigned -/

/-- What `Packet(PacketType, uint64_t, uint64_t)` leaves in the fields of the header. -/
def constructed (storage : Memory) (type : PacketType) (fromId toId : UInt64) :
    HeaderField → Bytes
  | .magic => kapuaMagicNumber
  | .version => [kapuaVersion.major, kapuaVersion.minor, kapuaVersion.patch]
  | .type => leBytes 2 type.code
  | .packetId => headerLayout.read storage .packetId
  | .fromId => leBytes 8 fromId.toNat
  | .toId => leBytes 8 toId.toNat
  | .ttl => leBytes 2 32
  | .requestId => headerLayout.read storage .requestId
  | .length => leBytes 2 0

theorem read_construct (storage : Memory) (type : PacketType) (fromId toId : UInt64)
    (field : HeaderField) : headerLayout.read (construct storage type fromId toId) field =
      constructed storage type fromId toId field := by
  show headerLayout.read (headerLayout.write (headerLayout.write (headerLayout.write
    (headerLayout.write (headerLayout.write (headerLayout.write (headerLayout.write
      (headerLayout.write (headerLayout.write storage .ttl (leBytes 2 32)) .length (leBytes 2 0))
      .magic kapuaMagicNumber) .version [kapuaVersion.major, kapuaVersion.minor,
      kapuaVersion.patch]) .length (leBytes 2 0)) .type (leBytes 2 type.code)) .fromId
      (leBytes 8 fromId.toNat)) .toId (leBytes 8 kapuaIdBroadcast.toNat)) .toId
      (leBytes 8 toId.toNat)) field = _
  rw [Layout.read_write (length_leBytes 8 _), Layout.read_write (length_leBytes 8 _),
    Layout.read_write (length_leBytes 8 _), Layout.read_write (length_leBytes 2 _),
    Layout.read_write (length_leBytes 2 _), Layout.read_write rfl, Layout.read_write rfl,
    Layout.read_write (length_leBytes 2 _), Layout.read_write (length_leBytes 2 _)]
  cases field <;> simp [constructed]

/-- What the accessors return for a header with these contents. -/
theorem accessors_of_constructed {pkt : Packet} {storage : Memory} {type : PacketType}
    {fromId toId : UInt64} (h : ∀ field, headerLayout.read pkt field =
      constructed storage type fromId toId field) :
    pkt.magic = kapuaMagicNumber ∧ pkt.version = kapuaVersion ∧ pkt.type = some type ∧
      pkt.fromId = fromId ∧ pkt.toId = toId ∧ pkt.ttl = 32 ∧ pkt.length = 0 ∧
      pkt.packetId = packetId storage ∧ pkt.requestId = requestId storage := by
  refine ⟨h .magic, ?_, ?_, ?_, ?_, ?_, ?_, ?_, ?_⟩
  · have hbytes : [pkt 5, pkt 6, pkt 7] =
        [kapuaVersion.major, kapuaVersion.minor, kapuaVersion.patch] := h .version
    obtain ⟨hmajor, hrest⟩ := List.cons_eq_cons.mp hbytes
    obtain ⟨hminor, hrest⟩ := List.cons_eq_cons.mp hrest
    obtain ⟨hpatch, -⟩ := List.cons_eq_cons.mp hrest
    rw [version, hmajor, hminor, hpatch]
  · show PacketType.ofCode (leNat (headerLayout.read pkt .type)) = _
    rw [h .type]
    show PacketType.ofCode (leNat (leBytes 2 type.code)) = _
    rw [leNat_leBytes_of_lt type.code_lt, PacketType.ofCode_code]
  · show UInt64.ofNat (leNat (headerLayout.read pkt .fromId)) = _
    rw [h .fromId]
    exact ofNat_leNat_leBytes fromId
  · show UInt64.ofNat (leNat (headerLayout.read pkt .toId)) = _
    rw [h .toId]
    exact ofNat_leNat_leBytes toId
  · show leNat (headerLayout.read pkt .ttl) = _
    rw [h .ttl]
    rfl
  · show leNat (headerLayout.read pkt .length) = _
    rw [h .length]
    rfl
  · show UInt64.ofNat (leNat (headerLayout.read pkt .packetId)) = _
    rw [h .packetId]
    rfl
  · show UInt64.ofNat (leNat (headerLayout.read pkt .requestId)) = _
    rw [h .requestId]
    rfl

end Packet

/-! ### The header on its way -/

variable {PKey : Type}

/-- The header is a record of nine independent fields, and travels as one. Every choice of contents
is the header of a packet that holds what any given storage holds behind it, and of packets with
the same first bytes only. A packet sent as it is reaches the buffer of the receiver with the
contents of every field, whatever the buffer held. And what the receiver reads of a packet that the
constructor made is what the constructor was given, the magic number, the version, the `ttl` of 32
and no data; the packet id and the request id are those of the storage. -/
theorem header_roundTrip :
    (∀ (contents : HeaderField → Bytes) (storage : Memory),
      (∀ field, (contents field).length = field.width) →
      ∃ pkt : Packet, (∀ field, headerLayout.read pkt field = contents field) ∧
        (∀ place, kapuaHeaderSize ≤ place → pkt place = storage place) ∧
        ∀ pkt' : Packet, (∀ field, headerLayout.read pkt' field = contents field) →
          pkt'.slice 0 kapuaHeaderSize = pkt.slice 0 kapuaHeaderSize) ∧
    (∀ (pkt : Packet) (s : LoopState PKey) (addr : Sockaddr) (draw : Draw PKey),
      kapuaHeaderSize + pkt.length ≤ kapuaMaxPacketSize →
      ∀ field, headerLayout.read (arrivedDatagram s addr pkt.datagram draw).pkt field =
        headerLayout.read pkt field) ∧
    ∀ (storage : Memory) (type : PacketType) (fromId toId : UInt64) (s : LoopState PKey)
      (addr : Sockaddr) (draw : Draw PKey),
      let pkt := (arrivedDatagram s addr
        (Packet.datagram (Packet.construct storage type fromId toId)) draw).pkt
      pkt.magic = kapuaMagicNumber ∧ pkt.version = kapuaVersion ∧ pkt.type = some type ∧
        pkt.fromId = fromId ∧ pkt.toId = toId ∧ pkt.ttl = 32 ∧ pkt.length = 0 ∧
        pkt.packetId = Packet.packetId storage ∧ pkt.requestId = Packet.requestId storage := by
  have harrives (pkt : Packet) (s : LoopState PKey) (addr : Sockaddr) (draw : Draw PKey)
      (hfits : kapuaHeaderSize + pkt.length ≤ kapuaMaxPacketSize) (field : HeaderField) :
      headerLayout.read (arrivedDatagram s addr pkt.datagram draw).pkt field =
        headerLayout.read pkt field := by
    obtain ⟨-, hfront⟩ := sameFront_datagram s addr draw hfits
    exact hfront.slice_eq ((headerLayout.within field).trans (Nat.le_add_right _ _))
  refine ⟨fun contents storage hwidth ↦ ?_, harrives,
    fun storage type fromId toId s addr draw ↦ ?_⟩
  · have hread (field : HeaderField) :
        headerLayout.read (headerLayout.assemble contents HeaderField.all storage) field =
          contents field :=
      Layout.read_assemble hwidth HeaderField.nodup_all field.mem_all
    refine ⟨_, hread, fun place hplace ↦ Layout.assemble_of_ge hwidth hplace,
      fun pkt' hcontents ↦ ?_⟩
    exact Layout.read_eq_iff.mp fun field ↦ (hcontents field).trans (hread field).symm
  · have hheader := Packet.isHeader_construct storage type fromId toId
    refine Packet.accessors_of_constructed fun field ↦ ?_
    rw [harrives _ s addr draw (by rw [hheader.length]; decide), Packet.read_construct]

end Kapua
