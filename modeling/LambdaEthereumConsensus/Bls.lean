import Mathlib

/-
  LambdaEthereumConsensus.Bls — the ways the state transition reads a BLS check
  (`lib/bls.ex`, and the helpers `verify_signature/3` and `bls_verify_proposer_slashing/3`
  of `state_transition/operations.ex`).

  The NIFs `Bls.verify/3`, `Bls.fast_aggregate_verify/3` and `Bls.eth_fast_aggregate_verify/3`
  are parameters. Each returns `{:ok, bool}` or `{:error, reason}` (for instance on bytes that
  are no point of the curve), here `Except String Bool`. Keys, messages and signatures are
  of any type.

  Proved, one lemma a wrapper:
  - `valid?`, `fastAggregateValid?` and `verifySignature` accept exactly an `{:ok, true}`;
  - `blsVerifyProposerSlashing` accepts an `{:ok, true}` and every `{:error, _}` as well.
-/

namespace LambdaEthereumConsensus.Bls

variable {Pubkey Message Signature : Type}

section Verify

variable (verify : Pubkey → Message → Signature → Except String Bool)

/-- `Bls.valid?/3`: an error counts as an invalid signature. -/
def valid? (publicKey : Pubkey) (message : Message) (signature : Signature) : Bool :=
  match verify publicKey message signature with
  | .ok b => b
  | .error _ => false

/-- `bls_verify_proposer_slashing/3` of `Operations`: an error counts as a valid signature. -/
def blsVerifyProposerSlashing (pubkey : Pubkey) (signingRoot : Message) (signature : Signature) : Bool :=
  match verify pubkey signingRoot signature with
  | .ok b => b
  | .error _ => true

theorem valid?_eq_true {publicKey : Pubkey} {message : Message} {signature : Signature} :
    valid? verify publicKey message signature = true ↔ verify publicKey message signature = .ok true := by
  unfold valid?
  split <;> simp_all

theorem blsVerifyProposerSlashing_eq_true {pubkey : Pubkey} {signingRoot : Message} {signature : Signature} :
    blsVerifyProposerSlashing verify pubkey signingRoot signature = true ↔
      verify pubkey signingRoot signature = .ok true ∨ ∃ e, verify pubkey signingRoot signature = .error e := by
  unfold blsVerifyProposerSlashing
  split <;> simp_all

end Verify

section Aggregate

variable (aggregateVerify : List Pubkey → Message → Signature → Except String Bool)

/-- `Bls.fast_aggregate_valid?/3`: an error counts as an invalid signature. -/
def fastAggregateValid? (publicKeys : List Pubkey) (message : Message) (signature : Signature) : Bool :=
  match aggregateVerify publicKeys message signature with
  | .ok b => b
  | .error _ => false

/-- `verify_signature/3` of `Operations`, on `Bls.eth_fast_aggregate_verify/3`. -/
def verifySignature (pubkeys : List Pubkey) (message : Message) (signature : Signature) : Except String Unit :=
  match aggregateVerify pubkeys message signature with
  | .ok true => .ok ()
  | _ => .error "Signature verification failed"

theorem fastAggregateValid?_eq_true {publicKeys : List Pubkey} {message : Message} {signature : Signature} :
    fastAggregateValid? aggregateVerify publicKeys message signature = true ↔
      aggregateVerify publicKeys message signature = .ok true := by
  unfold fastAggregateValid?
  split <;> simp_all

theorem verifySignature_eq_ok {pubkeys : List Pubkey} {message : Message} {signature : Signature} :
    verifySignature aggregateVerify pubkeys message signature = .ok () ↔
      aggregateVerify pubkeys message signature = .ok true := by
  unfold verifySignature
  split <;> simp_all

end Aggregate

end LambdaEthereumConsensus.Bls
