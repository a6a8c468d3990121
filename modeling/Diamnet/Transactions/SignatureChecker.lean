import Diamnet.Ledger.Entries

/-! Signatures (`SignatureChecker.cpp`, `SignatureUtils.cpp`).

A checker is made for one transaction and remembers which of its signatures were of use.
Hashing and the verification of a signature are parameters. -/
namespace Diamnet.Transactions
open Ledger

structure DecoratedSignature where
  /-- The last four bytes of the key. -/
  hint : UInt32
  signature : List UInt8
deriving DecidableEq

/-- What is taken from cryptography. -/
structure Crypto where
  sha256 : List UInt8 → Hash
  verifySig : AccountID → List UInt8 → Hash → Bool

namespace SignatureUtils

def doesHintMatch (key : Nat) (hint : UInt32) : Bool := key % 2 ^ 32 = hint.toNat

def verify (crypto : Crypto) (sig : DecoratedSignature) (pubKey : AccountID) (hash : Hash) : Bool :=
  doesHintMatch pubKey sig.hint && crypto.verifySig pubKey sig.signature hash

def verifyHashX (crypto : Crypto) (sig : DecoratedSignature) (hashX : Hash) : Bool :=
  doesHintMatch hashX sig.hint && hashX = crypto.sha256 sig.signature

end SignatureUtils

structure SignatureChecker where
  protocolVersion : Nat
  contentsHash : Hash
  /-- Each signature, with whether it was used. -/
  signatures : List (DecoratedSignature × Bool)

namespace SignatureChecker

def new (protocolVersion : Nat) (contentsHash : Hash) (signatures : List DecoratedSignature) : SignatureChecker where
  protocolVersion
  contentsHash
  signatures := signatures.map fun sig => (sig, false)

def UINT8_MAX : Nat := 255

def weightOf (checker : SignatureChecker) (signer : Signer) : Nat :=
  if checker.protocolVersion > 9 ∧ signer.weight > UINT8_MAX then UINT8_MAX else signer.weight

/-- The weight with a signer's added, in 32-bit arithmetic. -/
def addWeight (checker : SignatureChecker) (totalWeight : Int) (signer : Signer) : Int :=
  (totalWeight + checker.weightOf signer).bmod (2 ^ 32)

/-- The signers whose key is the transaction itself. -/
def countPreAuth (checker : SignatureChecker) (neededWeight : Int) : List Signer → Int → Bool × Int
  | [], totalWeight => (false, totalWeight)
  | signer :: rest, totalWeight =>
    if signer.key = .preAuthTx checker.contentsHash then
      let totalWeight := checker.addWeight totalWeight signer
      if totalWeight ≥ neededWeight then (true, totalWeight) else checker.countPreAuth neededWeight rest totalWeight
    else checker.countPreAuth neededWeight rest totalWeight

/-- Each signature counts for the first signer that it verifies for, and each signer once. -/
def verifyAll (checker : SignatureChecker) (verify : DecoratedSignature → Signer → Bool) (neededWeight : Int) :
    List (DecoratedSignature × Bool) → List Signer → Int → Bool × Int × List (DecoratedSignature × Bool)
  | [], _, totalWeight => (false, totalWeight, [])
  | (sig, used) :: rest, signers, totalWeight =>
    match signers.find? (verify sig) with
    | some signer =>
      let totalWeight := checker.addWeight totalWeight signer
      if totalWeight ≥ neededWeight then (true, totalWeight, (sig, true) :: rest)
      else
        let (verified, totalWeight, rest) :=
          checker.verifyAll verify neededWeight rest (signers.eraseP (verify sig)) totalWeight
        (verified, totalWeight, (sig, true) :: rest)
    | none =>
      let (verified, totalWeight, rest) := checker.verifyAll verify neededWeight rest signers totalWeight
      (verified, totalWeight, (sig, used) :: rest)

def verifiesHashX (crypto : Crypto) (sig : DecoratedSignature) (signer : Signer) : Bool :=
  match signer.key with
  | .hashX hash => SignatureUtils.verifyHashX crypto sig hash
  | _ => false

def verifiesEd25519 (crypto : Crypto) (checker : SignatureChecker) (sig : DecoratedSignature) (signer : Signer) : Bool :=
  match signer.key with
  | .ed25519 key => SignatureUtils.verify crypto sig key checker.contentsHash
  | _ => false

/-- Whether the signatures have the weight. Version 7 checks none. -/
def checkSignature (crypto : Crypto) (checker : SignatureChecker) (signers : List Signer) (neededWeight : Int) :
    Bool × SignatureChecker :=
  if checker.protocolVersion = 7 then (true, checker)
  else
    let (enough, totalWeight) := checker.countPreAuth neededWeight signers 0
    if enough then (true, checker)
    else
      let (verified, totalWeight, signatures) :=
        checker.verifyAll (verifiesHashX crypto) neededWeight checker.signatures signers totalWeight
      if verified then (true, { checker with signatures })
      else
        let (verified, _, signatures) :=
          checker.verifyAll (checker.verifiesEd25519 crypto) neededWeight signatures signers totalWeight
        (verified, { checker with signatures })

def checkAllSignaturesUsed (checker : SignatureChecker) : Bool :=
  checker.protocolVersion = 7 || checker.signatures.all (·.2)

end SignatureChecker

end Diamnet.Transactions
