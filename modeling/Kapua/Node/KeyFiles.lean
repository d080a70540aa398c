import Kapua.Node.Packet

/-!
# Loading a key pair

`load_rsa_key_pair` reads a public key and a private key, each from its file, and handles the four
ways in which that can fail in three manners. A file that cannot be opened, of either key, clears a
flag, and at its end the function frees what it has read and returns false. A public key that does
not parse is logged and nothing else. A private key that does not parse makes it return false at
once. So key loading is all or nothing exactly unless both files are there and one of them parses
while the other does not (`loadRsaKeyPair_allOrNothing_iff`).
-/

set_option autoImplicit false
set_option relaxedAutoImplicit false

namespace Kapua

/-- What `PEM_read_PUBKEY` and `PEM_read_PrivateKey` make of the contents of a file. -/
structure Pem (PKey : Type) where
  readPubkey : Bytes → Option PKey
  readPrivateKey : Bytes → Option PKey

/-- The key objects one call can read: at most one from each file. -/
inductive KeyObject
  | fromPublicKeyFile
  | fromPrivateKeyFile
  deriving DecidableEq, Repr

/-- How far a call is: the key pair, the errors it has logged, the key objects it has read and those
it has freed. -/
structure KeyLoading (PKey : Type) where
  keyPair : KeyPair PKey
  errors : List String
  read : List KeyObject
  freed : List KeyObject

variable {PKey : Type}

namespace KeyLoading

/-- The call has logged an error. -/
def logError (l : KeyLoading PKey) (text : String) : KeyLoading PKey :=
  { l with errors := l.errors ++ [text] }

/-- The call has read the public key. -/
def withPublicKey (l : KeyLoading PKey) (key : PKey) : KeyLoading PKey :=
  { l with keyPair.publicKey := some key, read := l.read ++ [.fromPublicKeyFile] }

/-- The call has read the private key. -/
def withPrivateKey (l : KeyLoading PKey) (key : PKey) : KeyLoading PKey :=
  { l with keyPair.privateKey := some key, read := l.read ++ [.fromPrivateKeyFile] }

/-- The end of `load_rsa_key_pair`: without success the keys that are not null are freed, and both
pointers become null. -/
def finish (success : Bool) (l : KeyLoading PKey) : Bool × KeyLoading PKey :=
  if success then (true, l)
  else
    let freed := (if l.keyPair.publicKey.isSome then [.fromPublicKeyFile] else []) ++
      if l.keyPair.privateKey.isSome then [.fromPrivateKeyFile] else []
    (false, { l with keyPair := ⟨none, none⟩, freed := l.freed ++ freed })

end KeyLoading

/-- The first part of `load_rsa_key_pair`: the flag and what it has done after the public key. -/
def loadPublicKey (pem : Pem PKey) (publicKeyFile : Option Bytes) : Bool × KeyLoading PKey :=
  let l : KeyLoading PKey := ⟨⟨none, none⟩, [], [], []⟩
  match publicKeyFile with
  | none => (false, l.logError "Error opening public key PEM file.")
  | some contents =>
    match pem.readPubkey contents with
    -- The flag stays as it is.
    | none => (true, l.logError "Error loading public key from PEM file.")
    | some key => (true, l.withPublicKey key)

/-- `RSA::load_rsa_key_pair` for the contents of the two files, `none` where one cannot be opened.
What the key pair held before is overwritten. -/
def loadRsaKeyPair (pem : Pem PKey) (publicKeyFile privateKeyFile : Option Bytes)
    (_keyPair : KeyPair PKey) : Bool × KeyLoading PKey :=
  let (success, l) := loadPublicKey pem publicKeyFile
  match privateKeyFile with
  | none => (l.logError "Error opening private key PEM file.").finish false
  | some contents =>
    match pem.readPrivateKey contents with
    -- The early return: nothing is freed and no pointer is reset.
    | none => (false, l.logError "Error loading private key from PEM file.")
    | some key => (l.withPrivateKey key).finish success

/-- The file is there and its contents parse. -/
def Parses (read : Bytes → Option PKey) (file : Option Bytes) : Prop := (file.bind read).isSome

/-- Key loading is all or nothing: it returns true if and only if both files are there and parse,
and then neither pointer is null, so that `write_public_key` does not fail on a null key; and
whenever it returns false, both pointers are null and each key object that was read has been freed
once. -/
def AllOrNothing (pem : Pem PKey) (publicKeyFile privateKeyFile : Option Bytes)
    (keyPair : KeyPair PKey) : Prop :=
  let (success, l) := loadRsaKeyPair pem publicKeyFile privateKeyFile keyPair
  (success = true ↔
    Parses pem.readPubkey publicKeyFile ∧ Parses pem.readPrivateKey privateKeyFile) ∧
  (success = true → l.keyPair.publicKey.isSome ∧ l.keyPair.privateKey.isSome ∧
    ∀ (ssl : OpenSSL PKey) (pkt : Packet),
      pkt.writePublicKey ssl l.keyPair ≠ .error "Public key is null") ∧
  (success = false → l.keyPair = ⟨none, none⟩ ∧ ∀ object ∈ l.read, l.freed.count object = 1)

/-- A public key that is not null is not what `write_public_key` fails on. -/
theorem writePublicKey_ne_null (ssl : OpenSSL PKey) {keyPair : KeyPair PKey} {key : PKey}
    (hkey : keyPair.publicKey = some key) (pkt : Packet) :
    pkt.writePublicKey ssl keyPair ≠ .error "Public key is null" := by
  unfold Packet.writePublicKey
  rw [hkey]
  dsimp only
  cases ssl.i2dPublicKey key with
  | none => simp
  | some encoded =>
    dsimp only
    split_ifs <;> simp

/-- Key loading is all or nothing exactly unless both files are there and the contents of one of
them parse while those of the other do not. -/
theorem loadRsaKeyPair_allOrNothing_iff (pem : Pem PKey)
    (publicKeyFile privateKeyFile : Option Bytes) (keyPair : KeyPair PKey) :
    AllOrNothing pem publicKeyFile privateKeyFile keyPair ↔
      (publicKeyFile.isSome → privateKeyFile.isSome →
        (Parses pem.readPubkey publicKeyFile ↔ Parses pem.readPrivateKey privateKeyFile)) := by
  unfold AllOrNothing loadRsaKeyPair loadPublicKey Parses
  cases publicKeyFile with
  | none =>
    cases privateKeyFile with
    | none => simp [KeyLoading.finish, KeyLoading.logError]
    | some privateContents =>
      cases hprivate : pem.readPrivateKey privateContents with
      | none => simp [hprivate, KeyLoading.logError]
      | some privateKey =>
        simp [hprivate, KeyLoading.finish, KeyLoading.logError, KeyLoading.withPrivateKey]
  | some publicContents =>
    cases hpublic : pem.readPubkey publicContents with
    | none =>
      cases privateKeyFile with
      | none => simp [hpublic, KeyLoading.finish, KeyLoading.logError]
      | some privateContents =>
        cases hprivate : pem.readPrivateKey privateContents with
        | none => simp [hpublic, hprivate, KeyLoading.logError]
        | some privateKey =>
          -- Only a log entry tells that the public key is missing.
          simp [hpublic, hprivate, KeyLoading.finish, KeyLoading.logError,
            KeyLoading.withPrivateKey]
    | some publicKey =>
      cases privateKeyFile with
      | none =>
        simp [hpublic, KeyLoading.finish, KeyLoading.logError, KeyLoading.withPublicKey]
      | some privateContents =>
        cases hprivate : pem.readPrivateKey privateContents with
        | none =>
          -- The early return leaves the public key where it is.
          simp [hpublic, hprivate, KeyLoading.logError, KeyLoading.withPublicKey]
        | some privateKey =>
          have hwritten (ssl : OpenSSL PKey) (pkt : Packet) :
              pkt.writePublicKey ssl ⟨some publicKey, some privateKey⟩ ≠
                .error "Public key is null" := writePublicKey_ne_null ssl rfl pkt
          simpa [hpublic, hprivate, KeyLoading.finish, KeyLoading.withPublicKey,
            KeyLoading.withPrivateKey] using hwritten

/-- A format in which the first byte of a file is the key. -/
def firstByte : Pem UInt8 where
  readPubkey := List.head?
  readPrivateKey := List.head?

/-- A public key file that does not parse beside a private key file that does: the call returns true
without a public key. -/
theorem not_allOrNothing : ¬ ∀ publicKeyFile privateKeyFile keyPair,
    AllOrNothing firstByte publicKeyFile privateKeyFile keyPair := by
  intro hall
  obtain ⟨hsuccess, -, -⟩ := hall (some []) (some [1]) ⟨none, none⟩
  have hparses := (hsuccess.mp rfl).1
  exact absurd hparses (by simp [Parses, firstByte])

end Kapua
