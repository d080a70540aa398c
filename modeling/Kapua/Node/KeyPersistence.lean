import Kapua.Foundation.Transition
import Kapua.Node.KeyFiles

/-!
# The key pair across starts

What `main` does about the key files: it generates a key pair if the private key file cannot be
opened, and loads whatever the two files hold. Generating writes the public key file first, ignores
what `PEM_write_PUBKEY` and `PEM_write_PrivateKey` return, and can be killed at any byte, so that
any prefix of a file can be what a later start meets.

A node never runs with the halves of two key pairs, and a private key that a node runs with once is
the one that every later start loads (`identity_persists`). An interrupted generation is repaired by
a later start exactly if it had not yet created the private key file or has written enough of both
files (`repairable_iff`): once it is there, the file can be opened, and nothing writes it again.

The process can die between any two bytes. That the machine dies, and loses what was written in
another order, is left out.
-/

set_option autoImplicit false
set_option relaxedAutoImplicit false

namespace Kapua

variable {PKey : Type}

/-- What `PEM_write_PUBKEY` and `PEM_write_PrivateKey` write. -/
structure PemWriter (PKey : Type) where
  writePubkey : PKey → Bytes
  writePrivateKey : PKey → Bytes

/-- The contents of `public.pem` and `private.pem`, `none` for one that cannot be opened. -/
structure KeyDirectory where
  publicKeyFile : Option Bytes
  privateKeyFile : Option Bytes

/-- Where a process is in `main` and `generate_rsa_key_pair`.
* `off`: no process is running.
* `testing`: the test of `main` whether the private key file can be opened.
* `generating`: the call of `EVP_PKEY_keygen`.
* `openingPublic`, `openingPrivate`: the calls of `fopen` for a generated key.
* `writingPublic`, `writingPrivate`: the calls that write the files.
* `loading`: the call of `load_rsa_key_pair`.
* `running`: the rest of `main`, with the key pair that was loaded. -/
inductive StartPhase (PKey : Type)
  | off
  | testing
  | generating
  | openingPublic (key : PKey)
  | writingPublic (key : PKey)
  | openingPrivate (key : PKey)
  | writingPrivate (key : PKey)
  | loading
  | running (keyPair : KeyPair PKey)

/-- The steps of a process, with what its calls return. `write` is as many bytes as reach the file
next, `stop` the end of the process, wherever it is. -/
inductive StartStep (PKey : Type)
  | start
  | test
  | keygen (key : Option PKey)
  | fopen (opens : Bool)
  | write (count : ℕ)
  | fclose
  | load
  | stop

/-- The key files and the process. -/
structure Startup (PKey : Type) where
  directory : KeyDirectory
  phase : StartPhase PKey

/-- A file after more bytes of its contents have been written. -/
def appendTo (contents : Bytes) (count : ℕ) (file : Option Bytes) : Option Bytes :=
  file.map fun written ↦ contents.take (written.length + count)

variable (pem : Pem PKey) (writer : PemWriter PKey)

/-- The statements of `main` and `generate_rsa_key_pair` that concern the key files. `main` ignores
what the two functions return. -/
def startStep (s : Startup PKey) : StartStep PKey → Option (Startup PKey)
  | .start =>
    match s.phase with
    | .off => some { s with phase := .testing }
    | _ => none
  | .test =>
    match s.phase with
    | .testing =>
      some { s with phase := if s.directory.privateKeyFile.isSome then .loading else .generating }
    | _ => none
  | .keygen key =>
    match s.phase with
    | .generating => some { s with phase := key.elim .loading .openingPublic }
    | _ => none
  | .fopen opens =>
    match s.phase with
    | .openingPublic key =>
      some (if opens then ⟨{ s.directory with publicKeyFile := some [] }, .writingPublic key⟩
        else { s with phase := .loading })
    | .openingPrivate key =>
      some (if opens then ⟨{ s.directory with privateKeyFile := some [] }, .writingPrivate key⟩
        else { s with phase := .loading })
    | _ => none
  | .write count =>
    match s.phase with
    | .writingPublic key => some { s with
        directory.publicKeyFile :=
          appendTo (writer.writePubkey key) count s.directory.publicKeyFile }
    | .writingPrivate key => some { s with
        directory.privateKeyFile :=
          appendTo (writer.writePrivateKey key) count s.directory.privateKeyFile }
    | _ => none
  | .fclose =>
    match s.phase with
    | .writingPublic key => some { s with phase := .openingPrivate key }
    | .writingPrivate _ => some { s with phase := .loading }
    | _ => none
  | .load =>
    match s.phase with
    | .loading => some { s with phase := .running (loadRsaKeyPair pem s.directory.publicKeyFile
        s.directory.privateKeyFile ⟨none, none⟩).2.keyPair }
    | _ => none
  | .stop => some { s with phase := .off }

/-- Some step of a process. -/
def Starts (s : Startup PKey) (label : StartStep PKey) (t : Startup PKey) : Prop :=
  startStep pem writer s label = some t

/-- What the program relies on in the PEM functions. The keys that a generated pair is read back as
belong together; and a file that was not written to its end does not parse, or parses to the same
key, as one does that has all but its last newline. -/
structure ReadsBack (Matches : PKey → PKey → Prop) (publicHalf privateHalf : PKey → PKey) :
    Prop where
  readPubkey : ∀ key, pem.readPubkey (writer.writePubkey key) = some (publicHalf key)
  readPrivateKey : ∀ key, pem.readPrivateKey (writer.writePrivateKey key) = some (privateHalf key)
  halves : ∀ key, Matches (publicHalf key) (privateHalf key)
  torn_public : ∀ key count, pem.readPubkey ((writer.writePubkey key).take count) = none ∨
    pem.readPubkey ((writer.writePubkey key).take count) = some (publicHalf key)
  torn_private : ∀ key count,
    pem.readPrivateKey ((writer.writePrivateKey key).take count) = none ∨
      pem.readPrivateKey ((writer.writePrivateKey key).take count) = some (privateHalf key)

/-- The public key file holds as much of a key as was written. -/
def PublicOf (directory : KeyDirectory) (key : PKey) : Prop :=
  ∃ count, directory.publicKeyFile = some ((writer.writePubkey key).take count)

/-- The files hold as much of one key pair as was written. -/
def PairOf (directory : KeyDirectory) (key : PKey) : Prop :=
  PublicOf writer directory key ∧
    ∃ count, directory.privateKeyFile = some ((writer.writePrivateKey key).take count)

/-- What holds between the files and the process: there is a private key file only beside the public
key file of the same pair, and none before the process opens it. -/
def Startup.Consistent (s : Startup PKey) : Prop :=
  match s.phase with
  | .off | .testing | .loading =>
    s.directory.privateKeyFile = none ∨ ∃ key, PairOf writer s.directory key
  | .generating | .openingPublic _ => s.directory.privateKeyFile = none
  | .writingPublic key | .openingPrivate key =>
    s.directory.privateKeyFile = none ∧ PublicOf writer s.directory key
  | .writingPrivate key => PairOf writer s.directory key
  | .running keyPair =>
    (s.directory.privateKeyFile = none ∨ ∃ key, PairOf writer s.directory key) ∧
      keyPair = (loadRsaKeyPair pem s.directory.publicKeyFile s.directory.privateKeyFile
        ⟨none, none⟩).2.keyPair

variable {pem writer} {s t : Startup PKey} {label : StartStep PKey}

/-- Writing on leaves a prefix of the contents. -/
theorem appendTo_take (contents : Bytes) (count more : ℕ) :
    ∃ total, appendTo contents more (some (contents.take count)) = some (contents.take total) :=
  ⟨_, rfl⟩

/-- Whatever the phase, there is no private key file, or the files are those of one pair. -/
theorem Startup.Consistent.files (hs : s.Consistent pem writer) :
    s.directory.privateKeyFile = none ∨ ∃ key, PairOf writer s.directory key := by
  obtain ⟨directory, phase⟩ := s
  cases phase with
  | off => exact hs
  | testing => exact hs
  | generating => exact Or.inl hs
  | openingPublic key => exact Or.inl hs
  | writingPublic key => exact Or.inl hs.1
  | openingPrivate key => exact Or.inl hs.1
  | writingPrivate key => exact Or.inr ⟨key, hs⟩
  | loading => exact hs
  | running keyPair => exact hs.1

/-- Every step keeps the files and the process consistent. -/
theorem Starts.consistent (h : Starts pem writer s label t) (hs : s.Consistent pem writer) :
    t.Consistent pem writer := by
  have hfiles := hs.files
  obtain ⟨directory, phase⟩ := s
  unfold Starts startStep at h
  cases label with
  | start =>
    cases phase with
    | off =>
      obtain rfl := Option.some.inj h
      exact hfiles
    | _ => cases h
  | test =>
    cases phase with
    | testing =>
      obtain rfl := Option.some.inj h
      dsimp only
      cases hprivate : directory.privateKeyFile with
      | none => exact hprivate
      | some contents => exact hfiles
    | _ => cases h
  | keygen key =>
    cases phase with
    | generating =>
      obtain rfl := Option.some.inj h
      cases key with
      | none => exact hfiles
      | some key => exact hs
    | _ => cases h
  | fopen opens =>
    cases phase with
    | openingPublic key =>
      obtain rfl := Option.some.inj h
      cases opens with
      | false => exact hfiles
      | true => exact ⟨hs, 0, rfl⟩
    | openingPrivate key =>
      obtain rfl := Option.some.inj h
      cases opens with
      | false => exact hfiles
      | true => exact ⟨hs.2, 0, rfl⟩
    | _ => cases h
  | write count =>
    cases phase with
    | writingPublic key =>
      obtain rfl := Option.some.inj h
      obtain ⟨hnone, written, hpublic⟩ := hs
      refine ⟨hnone, ?_⟩
      dsimp only [PublicOf]
      rw [hpublic]
      exact appendTo_take _ _ _
    | writingPrivate key =>
      obtain rfl := Option.some.inj h
      obtain ⟨hpublic, written, hprivate⟩ := hs
      refine ⟨hpublic, ?_⟩
      dsimp only
      rw [hprivate]
      exact appendTo_take _ _ _
    | _ => cases h
  | fclose =>
    cases phase with
    | writingPublic key =>
      obtain rfl := Option.some.inj h
      exact hs
    | writingPrivate key =>
      obtain rfl := Option.some.inj h
      exact hfiles
    | _ => cases h
  | load =>
    cases phase with
    | loading =>
      obtain rfl := Option.some.inj h
      exact ⟨hfiles, rfl⟩
    | _ => cases h
  | stop =>
    obtain rfl := Option.some.inj h
    exact hfiles

variable (pem) in
/-- There is a private key file, and no process is writing the files. -/
def Startup.Settled (s : Startup PKey) (directory : KeyDirectory) : Prop :=
  s.directory = directory ∧ directory.privateKeyFile.isSome ∧
    match s.phase with
    | .off | .testing | .loading => True
    | .running keyPair => keyPair = (loadRsaKeyPair pem directory.publicKeyFile
        directory.privateKeyFile ⟨none, none⟩).2.keyPair
    | _ => False

/-- Where there is a private key file that nobody is writing, no later start changes the files. -/
theorem Starts.settled (h : Starts pem writer s label t) {directory : KeyDirectory}
    (hs : s.Settled pem directory) : t.Settled pem directory := by
  obtain ⟨directory', phase⟩ := s
  obtain ⟨rfl, hprivate, hphase⟩ := hs
  unfold Starts startStep at h
  cases label with
  | start =>
    cases phase with
    | off =>
      obtain rfl := Option.some.inj h
      exact ⟨rfl, hprivate, trivial⟩
    | _ => cases h
  | test =>
    cases phase with
    | testing =>
      obtain rfl := Option.some.inj h
      refine ⟨rfl, hprivate, ?_⟩
      dsimp only at hprivate ⊢
      rw [if_pos hprivate]
      trivial
    | _ => cases h
  | keygen key =>
    cases phase with
    | generating => exact hphase.elim
    | _ => cases h
  | fopen opens =>
    cases phase with
    | openingPublic key => exact hphase.elim
    | openingPrivate key => exact hphase.elim
    | _ => cases h
  | write count =>
    cases phase with
    | writingPublic key => exact hphase.elim
    | writingPrivate key => exact hphase.elim
    | _ => cases h
  | fclose =>
    cases phase with
    | writingPublic key => exact hphase.elim
    | writingPrivate key => exact hphase.elim
    | _ => cases h
  | load =>
    cases phase with
    | loading =>
      obtain rfl := Option.some.inj h
      exact ⟨rfl, hprivate, rfl⟩
    | _ => cases h
  | stop =>
    obtain rfl := Option.some.inj h
    exact ⟨rfl, hprivate, trivial⟩

/-! ### What is loaded -/

/-- Each half of the key pair that is loaded was read from its file. -/
theorem loaded_half {publicKeyFile privateKeyFile : Option Bytes} {keyPair : KeyPair PKey}
    (h : (loadRsaKeyPair pem publicKeyFile privateKeyFile ⟨none, none⟩).2.keyPair = keyPair) :
    (∀ key, keyPair.publicKey = some key → publicKeyFile.bind pem.readPubkey = some key) ∧
    ∀ key, keyPair.privateKey = some key → privateKeyFile.bind pem.readPrivateKey = some key := by
  subst h
  unfold loadRsaKeyPair loadPublicKey
  cases publicKeyFile with
  | none =>
    cases privateKeyFile with
    | none => simp [KeyLoading.finish, KeyLoading.logError]
    | some privateContents =>
      cases hprivate : pem.readPrivateKey privateContents <;>
        simp [hprivate, KeyLoading.finish, KeyLoading.logError, KeyLoading.withPrivateKey]
  | some publicContents =>
    cases hpublic : pem.readPubkey publicContents with
    | none =>
      cases privateKeyFile with
      | none => simp [hpublic, KeyLoading.finish, KeyLoading.logError]
      | some privateContents =>
        cases hprivate : pem.readPrivateKey privateContents <;>
          simp [hpublic, hprivate, KeyLoading.finish, KeyLoading.logError,
            KeyLoading.withPrivateKey]
    | some publicKey =>
      cases privateKeyFile with
      | none => simp [hpublic, KeyLoading.finish, KeyLoading.logError, KeyLoading.withPublicKey]
      | some privateContents =>
        cases hprivate : pem.readPrivateKey privateContents <;>
          simp [hpublic, hprivate, KeyLoading.finish, KeyLoading.logError,
            KeyLoading.withPublicKey, KeyLoading.withPrivateKey]

/-- Files that parse are loaded. -/
theorem loaded_of_parses {publicContents privateContents : Bytes} {publicKey privateKey : PKey}
    (hpublic : pem.readPubkey publicContents = some publicKey)
    (hprivate : pem.readPrivateKey privateContents = some privateKey) :
    (loadRsaKeyPair pem (some publicContents) (some privateContents) ⟨none, none⟩).2.keyPair =
      ⟨some publicKey, some privateKey⟩ := by
  simp [loadRsaKeyPair, loadPublicKey, hpublic, hprivate, KeyLoading.finish,
    KeyLoading.withPublicKey, KeyLoading.withPrivateKey]

/-- The two files of which both halves are loaded parse. -/
theorem parses_of_loaded {directory : KeyDirectory} {publicKey privateKey : PKey}
    (hload : (loadRsaKeyPair pem directory.publicKeyFile directory.privateKeyFile
      ⟨none, none⟩).2.keyPair = ⟨some publicKey, some privateKey⟩) :
    Parses pem.readPubkey directory.publicKeyFile ∧
      Parses pem.readPrivateKey directory.privateKeyFile := by
  obtain ⟨hpublic, hprivate⟩ := loaded_half hload
  exact ⟨Option.isSome_of_eq_some (hpublic publicKey rfl),
    Option.isSome_of_eq_some (hprivate privateKey rfl)⟩

section ReadsBack

variable {Matches : PKey → PKey → Prop} {publicHalf privateHalf : PKey → PKey}
  (hpem : ReadsBack pem writer Matches publicHalf privateHalf)

include hpem

/-- The halves that are loaded from the files of one pair are the halves of that pair. -/
theorem ReadsBack.halves_of_loaded {directory : KeyDirectory} {publicKey privateKey : PKey}
    (hfiles : directory.privateKeyFile = none ∨ ∃ key, PairOf writer directory key)
    (hload : (loadRsaKeyPair pem directory.publicKeyFile directory.privateKeyFile
      ⟨none, none⟩).2.keyPair = ⟨some publicKey, some privateKey⟩) :
    ∃ key, publicKey = publicHalf key ∧ privateKey = privateHalf key := by
  obtain ⟨hpublic, hprivate⟩ := loaded_half hload
  replace hpublic := hpublic publicKey rfl
  replace hprivate := hprivate privateKey rfl
  obtain hnone | ⟨key, ⟨count, hwritten⟩, count', hwritten'⟩ := hfiles
  · rw [hnone] at hprivate
    cases hprivate
  · rw [hwritten, Option.bind_some] at hpublic
    rw [hwritten', Option.bind_some] at hprivate
    refine ⟨key, ?_, ?_⟩
    · obtain hnone | hsome := hpem.torn_public key count
      · cases hnone.symm.trans hpublic
      · exact Option.some.inj (hpublic.symm.trans hsome)
    · obtain hnone | hsome := hpem.torn_private key count'
      · cases hnone.symm.trans hprivate
      · exact Option.some.inj (hprivate.symm.trans hsome)

/-- The key pair survives. Whatever the steps of how many processes, each of which may be killed
anywhere: if a node runs with both halves of a key pair, they belong together; and the private key a
node runs with once, with whatever public key, every later one runs with. Assumes: no private key
file and no process at the start. -/
theorem identity_persists {start : Startup PKey} (hnone : start.directory.privateKeyFile = none)
    (hoff : start.phase = .off) {labels : List (StartStep PKey)}
    (hrun : Run (Starts pem writer) start labels s) {keyPair : KeyPair PKey}
    (hrunning : s.phase = .running keyPair) :
    (∀ publicKey privateKey, keyPair = ⟨some publicKey, some privateKey⟩ →
      Matches publicKey privateKey) ∧
    ∀ privateKey, keyPair.privateKey = some privateKey → ∀ later t keyPair',
      Run (Starts pem writer) s later t → t.phase = .running keyPair' → keyPair' = keyPair := by
  have hconsistent : s.Consistent pem writer := by
    refine hrun.invariant (fun s ↦ s.Consistent pem writer) (fun hs h ↦ h.consistent hs) ?_
    simp only [Startup.Consistent, hoff]
    exact Or.inl hnone
  have hload : keyPair = (loadRsaKeyPair pem s.directory.publicKeyFile
      s.directory.privateKeyFile ⟨none, none⟩).2.keyPair := by
    simp only [Startup.Consistent, hrunning] at hconsistent
    exact hconsistent.2
  constructor
  · rintro publicKey privateKey rfl
    obtain ⟨key, rfl, rfl⟩ := hpem.halves_of_loaded hconsistent.files hload.symm
    exact hpem.halves key
  · intro privateKey hprivate later t keyPair' hlater hrunning'
    have hread := (loaded_half hload.symm).2 privateKey hprivate
    have hsettled : s.Settled pem s.directory := by
      refine ⟨rfl, ?_, by simp only [hrunning]; exact hload⟩
      cases hfile : s.directory.privateKeyFile with
      | none => simp [hfile] at hread
      | some contents => rfl
    have hkept := hlater.invariant (fun s' ↦ s'.Settled pem s.directory)
      (fun hs h ↦ h.settled hs) hsettled
    have hload' := hkept.2.2
    simp only [hrunning'] at hload'
    rw [hload', ← hload]

/-- A later start can give a node both halves of a key pair exactly if there is no private key file,
or the files hold as much of one pair as it takes to read both halves. Assumes: no private key file
and no process at the start, and no process now. -/
theorem repairable_iff {start : Startup PKey} (hnone : start.directory.privateKeyFile = none)
    (hoff : start.phase = .off) {labels : List (StartStep PKey)}
    (hrun : Run (Starts pem writer) start labels s) (hstopped : s.phase = .off) (key : PKey) :
    (∃ later t publicKey privateKey, Run (Starts pem writer) s later t ∧
      t.phase = .running ⟨some publicKey, some privateKey⟩) ↔
      s.directory.privateKeyFile = none ∨ ∃ key, PairOf writer s.directory key ∧
        Parses pem.readPubkey s.directory.publicKeyFile ∧
        Parses pem.readPrivateKey s.directory.privateKeyFile := by
  have hconsistent : s.Consistent pem writer := by
    refine hrun.invariant (fun s ↦ s.Consistent pem writer) (fun hs h ↦ h.consistent hs) ?_
    simp only [Startup.Consistent, hoff]
    exact Or.inl hnone
  obtain ⟨directory, phase⟩ := s
  dsimp only at hstopped
  subst hstopped
  constructor
  · rintro ⟨later, t, publicKey, privateKey, hlater, hrunning⟩
    obtain habsent | ⟨key, hpair⟩ := hconsistent.files
    · exact Or.inl habsent
    · obtain ⟨-, count, hprivate⟩ := id hpair
      have hsettled : Startup.Settled pem ⟨directory, .off⟩ directory :=
        ⟨rfl, Option.isSome_of_eq_some hprivate, trivial⟩
      have hkept := hlater.invariant (fun s ↦ s.Settled pem directory)
        (fun hs h ↦ h.settled hs) hsettled
      have hload := hkept.2.2
      simp only [hrunning] at hload
      exact Or.inr ⟨key, hpair, parses_of_loaded hload.symm⟩
  · obtain ⟨publicKeyFile, privateKeyFile⟩ := directory
    rintro (habsent | ⟨-, -, hpublic, hprivate⟩)
    · obtain rfl : privateKeyFile = none := habsent
      refine ⟨[.start, .test, .keygen (some key), .fopen true,
        .write (writer.writePubkey key).length, .fclose, .fopen true,
        .write (writer.writePrivateKey key).length, .fclose, .load],
        ⟨⟨some (writer.writePubkey key), some (writer.writePrivateKey key)⟩,
          .running ⟨some (publicHalf key), some (privateHalf key)⟩⟩,
        publicHalf key, privateHalf key, Run.of_foldlM ?_, rfl⟩
      have hload := loaded_of_parses (hpem.readPubkey key) (hpem.readPrivateKey key)
      simp [startStep, appendTo, hload]
    · obtain ⟨publicKey, hpublic⟩ := Option.isSome_iff_exists.mp hpublic
      obtain ⟨privateKey, hprivate⟩ := Option.isSome_iff_exists.mp hprivate
      obtain ⟨publicContents, rfl, hpublic⟩ := Option.bind_eq_some_iff.mp hpublic
      obtain ⟨privateContents, rfl, hprivate⟩ := Option.bind_eq_some_iff.mp hprivate
      refine ⟨[.start, .test, .load], ⟨⟨some publicContents, some privateContents⟩,
          .running ⟨some publicKey, some privateKey⟩⟩,
        publicKey, privateKey, Run.of_foldlM ?_, rfl⟩
      have hload := loaded_of_parses hpublic hprivate
      simp [startStep, hload]

end ReadsBack

/-- A format of a byte that says which half it is, the key, and a last newline that may be
missing. -/
def markedKey : Pem UInt8 where
  readPubkey := fun
    | 1 :: key :: _ => some key
    | _ => none
  readPrivateKey := fun
    | 2 :: key :: _ => some key
    | _ => none

/-- What is written in that format. -/
def markedKeyWriter : PemWriter UInt8 where
  writePubkey := fun key ↦ [1, key, 10]
  writePrivateKey := fun key ↦ [2, key, 10]

theorem readsBack_markedKey : ReadsBack markedKey markedKeyWriter Eq id id where
  readPubkey := fun _ ↦ rfl
  readPrivateKey := fun _ ↦ rfl
  halves := fun _ ↦ rfl
  torn_public := fun key count ↦ by
    match count with
    | 0 => exact Or.inl rfl
    | 1 => exact Or.inl rfl
    | count + 2 => exact Or.inr rfl
  torn_private := fun key count ↦ by
    match count with
    | 0 => exact Or.inl rfl
    | 1 => exact Or.inl rfl
    | count + 2 => exact Or.inr rfl

/-- No key files and no process. -/
def firstStart : Startup UInt8 := ⟨⟨none, none⟩, .off⟩

/-- The steps of a first start up to the creation of the private key file. -/
def creatingPrivate : List (StartStep UInt8) :=
  [.start, .test, .keygen (some 7), .fopen true, .write 3, .fclose, .fopen true]

/-- `identity_persists` where the first process was killed before the last newline. -/
theorem identity_persists_first : ∃ s, Run (Starts markedKey markedKeyWriter) firstStart
      (creatingPrivate ++ [.write 1, .write 1, .stop, .start, .test, .load]) s ∧
    s.phase = .running ⟨some 7, some 7⟩ ∧
    ∀ later t keyPair, Run (Starts markedKey markedKeyWriter) s later t →
      t.phase = .running keyPair → keyPair = ⟨some 7, some 7⟩ := by
  have hrun : Run (Starts markedKey markedKeyWriter) firstStart
      (creatingPrivate ++ [.write 1, .write 1, .stop, .start, .test, .load])
      ⟨⟨some [1, 7, 10], some [2, 7]⟩, .running ⟨some 7, some 7⟩⟩ := Run.of_foldlM rfl
  obtain ⟨-, hkept⟩ := identity_persists readsBack_markedKey rfl rfl hrun rfl
  exact ⟨_, hrun, rfl, hkept 7 rfl⟩

/-- `repairable_iff` where a process was killed before the first byte of the private key: no later
start has a key pair. -/
theorem repairable_iff_killed : ∃ s, Run (Starts markedKey markedKeyWriter) firstStart
      (creatingPrivate ++ [.stop]) s ∧
    ¬ ∃ later t publicKey privateKey, Run (Starts markedKey markedKeyWriter) s later t ∧
      t.phase = .running ⟨some publicKey, some privateKey⟩ := by
  have hrun : Run (Starts markedKey markedKeyWriter) firstStart (creatingPrivate ++ [.stop])
      ⟨⟨some [1, 7, 10], some []⟩, .off⟩ := Run.of_foldlM rfl
  refine ⟨_, hrun, fun hlater ↦ ?_⟩
  obtain habsent | ⟨key, -, -, hprivate⟩ :=
    (repairable_iff readsBack_markedKey rfl rfl hrun rfl 7).mp hlater
  · cases habsent
  · cases hprivate

end Kapua
