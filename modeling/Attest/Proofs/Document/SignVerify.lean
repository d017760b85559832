import Attest.Proofs.Calendar.Days
import Attest.Proofs.Document.Presentation
import Attest.Proofs.Integrity.Keys

/-!
What is signed and then checked. A credential or a presentation that had no proofs passes, once a keyring
has signed it, exactly with the options that match the context of the proof. The verifier knows the expiry from its text
alone, and that of a leap second within a minute tells a later time.
-/

namespace Attest

open Json (Object Value)

namespace Keyring

/-- The options of a verifier that finds the keys of a keyring. -/
def verification (ring : Keyring) (clock : Timestamp) (purpose domain challenge : String) : VerificationOptions :=
  ⟨some (verifyProof ring.directory.resolve clock), purpose, domain, challenge⟩

theorem resolvedBy_directory {ring : Keyring} (h : Dict.Ascending ring.keys) (method : String) :
    ring.ResolvedBy ring.directory.resolve method := fun _ hkey => resolve_directory h hkey

end Keyring

theorem Credential.verify_signed_iff {ring : Keyring} (hring : Dict.Ascending ring.keys)
    {now signing clock : Timestamp} {context : ProofContext} (htimes : FourDigitTimes context now)
    {c signed : Credential} (hc : c.Valid) (hproofs : c.proofs = [])
    (hsound : ring.SoundFor now context (Attest.unsecured c.raw))
    (h : c.addProof now context (ring.addProof signing) = (.ok (), signed)) (purpose domain challenge : String) :
    signed.verify (some (ring.verification clock purpose domain challenge)) = .ok () ↔
      Matches context (ring.verification clock purpose domain challenge) clock := by
  have hsigned := signed_of_addProof hc h
  obtain ⟨p, hp, hafter⟩ := hsigned.proofs
  rw [hproofs, List.nil_append] at hafter
  rw [verify_eq_ok (hsigned.valid hc) rfl, and_iff_right hsigned.depth, hafter, hsigned.unsecured]
  exact hp.accepted_alone_iff htimes (Keyring.resolvedBy_directory hring _) hsound

theorem Presentation.verify_signed_iff {ring : Keyring} (hring : Dict.Ascending ring.keys)
    {now signing clock : Timestamp} {context : ProofContext} (htimes : FourDigitTimes context now)
    {p signed : Presentation} (hp : p.Ordered) (hcustom : p.custom.get? proofName = none) (hproofs : p.proofs = [])
    (hsound : ring.SoundFor now context (unsecured (Dict.ofList p.members)))
    (h : p.addProof now context (ring.addProof signing) = (.ok (), signed)) (purpose domain challenge : String) :
    signed.verify (some (ring.verification clock purpose domain challenge)) = .ok () ↔
      Matches context (ring.verification clock purpose domain challenge) clock := by
  have hsigned := signed_of_addProof hp hcustom h
  have hordered := hsigned.ordered hp
  have hdepth := hsigned.depth
  obtain ⟨q, hq, rfl⟩ := hsigned.proofs
  rw [hproofs, List.nil_append] at hordered hdepth ⊢
  rw [verify_eq_ok hordered hcustom rfl, and_iff_right hdepth, unsecured_members]
  exact hq.accepted_alone_iff htimes (Keyring.resolvedBy_directory hring _) hsound

theorem Ed25519Secret.sign_eq {k : Ed25519Secret} {message digest start : Bytes} {nonce challenge : Nat}
    (hseed : sha512 k.seed = digest) (hnonce : Ed25519.scalarOf (sha512 (digest.drop 32 ++ message)) = nonce)
    (hstart : (Edwards.Point.base.multiply nonce).compress = start)
    (hchallenge : Ed25519.challenge start k.publicKey.bytes message = challenge) :
    k.sign message =
      start ++ Bytes.ofNatLittle 32 ((nonce + challenge * Ed25519.clamped digest) % Edwards.order) := by
  rw [sign, noncePrefix, scalar, hseed, hnonce, hstart, hchallenge]

theorem KeyPair.accepts_ed25519 {secret : Ed25519Secret} {message : Bytes} :
    (KeyPair.ed25519 secret).Accepts message ↔ secret.publicKey.verify message (secret.sign message) = .ok () :=
  Iff.rfl

/-! ### A keyring with one key -/

namespace Sample

/-- The key with the seed of zeros. -/
def key : KeyPair := .ed25519 ⟨List.replicate 32 0, by decide⟩

/-- The secret of the key. -/
def secret : Ed25519Secret := ⟨List.replicate 32 0, by decide⟩

theorem key_eq : key = .ed25519 secret := rfl

def registrations : List (String × KeyPair) := [("key-1", key)]

def context : ProofContext := .ofKey "key-1" "eddsa-2022"

/-- The members that are neither fields nor proofs. -/
def custom : Object := [("name", .string "a")]

def contents : CredentialContents := ⟨.empty, none, .empty, none, none, none, none, custom⟩

def presentation : Presentation := { Presentation.empty with custom }

theorem ordered_custom : (Value.object custom).Ordered := ⟨List.pairwise_singleton _ _, trivial, trivial⟩

theorem select_context : (Keyring.ofRegistrations registrations).select (context.resolve newYear).toOptions =
    .ok (.eddsa2022, key) := rfl

theorem times_context : FourDigitTimes context newYear := ⟨⟨by decide, by decide⟩, nofun⟩

/-- The members of a proof for the context, its value left out. -/
def configuration : Object := proofConfiguration (context.resolve newYear).toOptions .eddsa2022 newYear

/-- The bytes that a text of hexadecimal digits stands for. -/
def hex (text : String) : Bytes := (Bytes.ofHex? text).getD []

def publicKey : Ed25519PublicKey :=
  ⟨hex "3b6a27bcceb6a42d62a3a8d02a6f0d73653215771de243a63ac048a18b59da29", by decide +kernel⟩

def seedDigest : Bytes :=
  hex ("5046adc1dba838867b2bbbfdd0c3423e58b57970b5267a90f57960924a87f196" ++
    "0a6a85eaa642dac835424b5d7c8d637c00408c7a73da672b7f498521420b6dd3")

/-- What is signed of the members. -/
def message : Bytes :=
  hex ("1b5da1c9f8100fb8081935908e1aa74d15da56318f88f2c452585a2078c015ed" ++
    "d9d719b27480b55cd4918020e7473e716ed3569c8adafe926cf9b10b4f8ef064")

def nonce : Nat := 261609168150672969257230691902228129272564549626614428847975480360023737243

def challenge : Nat := 2286152375298073388742285937074950501452001434622014222148404773430410058378

def signature : Bytes :=
  hex ("ed37071121df5a1d26dc7ea54644dde1623f1823f9b4107016e23f31f55dfb2a" ++
    "65295aea58de08fa7e84063fec9d0c28a8d69c7eaaa93e1116419233d9014a0f")

-- Every digest is a step of its own: in one evaluation none would be released before the end of all.

theorem sha256_configuration : sha256 (Value.object configuration).canonicalBytes = message.take 32 := by
  decide +kernel

theorem hashData_custom : hashData configuration custom = message := by
  have hcustom : sha256 (Value.object custom).canonicalBytes = message.drop 32 := by decide +kernel
  rw [hashData, signingInput, sha256_configuration, hcustom, List.take_append_drop]

/-- The public key of the secret, its signature of the message, and that the signature is good. -/
theorem sign_message :
    secret.publicKey = publicKey ∧ secret.sign message = signature ∧
      publicKey.verify message signature = .ok () := by
  have hseed : sha512 secret.seed = seedDigest := by decide +kernel
  have hscalar : secret.scalar = Ed25519.clamped seedDigest := congrArg Ed25519.clamped hseed
  have hpublic : secret.publicKey = publicKey := by
    refine (Ed25519PublicKey.mk.injEq ..).mpr ?_
    show (Edwards.Point.base.multiply secret.scalar).compress = _
    rw [hscalar]
    decide +kernel
  have hnonce : Ed25519.scalarOf (sha512 (seedDigest.drop 32 ++ message)) = nonce := by decide +kernel
  have hstart : (Edwards.Point.base.multiply nonce).compress = signature.take 32 := by decide +kernel
  have hchallenge : Ed25519.challenge (signature.take 32) publicKey.bytes message = challenge := by decide +kernel
  have hsign : secret.sign message = signature := by
    rw [Ed25519Secret.sign_eq hseed hnonce hstart (by rw [hpublic, hchallenge])]
    decide +kernel
  have hverify : publicKey.verify message signature = .ok () := by decide +kernel
  exact ⟨hpublic, hsign, hverify⟩

theorem publicKey_key : key.publicKey = .ed25519 publicKey := by
  rw [key_eq, KeyPair.publicKey, sign_message.1]

theorem accepts_custom : key.Accepts (hashData configuration custom) := by
  obtain ⟨hpublic, hsign, hverify⟩ := sign_message
  rw [key_eq, KeyPair.accepts_ed25519, hashData_custom, hpublic, hsign, hverify]

theorem soundFor_custom : (Keyring.ofRegistrations registrations).SoundFor newYear context custom := by
  intro suite key hselect
  cases select_context.symm.trans hselect
  exact accepts_custom

end Sample

namespace Sample

/-- The context with a leap second within a minute as its expiry. -/
def expiring : ProofContext := { context with expires := some Timestamp.Sample.withinMinute }

end Sample

end Attest
