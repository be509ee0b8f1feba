-- SUMMARY: Account addresses: plain keys, and the addresses the program and the token programs derive from seeds.

/-!
# Addresses

Derived addresses are modelled symbolically: each seed list is a constructor, so
two derivations agree only on equal seeds, and no derived address is a plain key.
This is the collision-freedom that `find_program_address` provides. A bump seed
is determined by the seeds it completes, so it is not recorded.
-/

namespace DeadMansVault

/-- The two token programs that `Interface<TokenInterface>` accepts. -/
inductive TokenProgram
  | token
  | token2022
  deriving DecidableEq, Repr

inductive Pubkey
  /-- A key that neither this program nor the token programs derive. -/
  | key (n : Nat)
  /-- `[b"vault", owner]` -/
  | vault (owner : Pubkey)
  /-- `[b"heartbeat", vault]` -/
  | heartbeat (vault : Pubkey)
  /-- `[b"execution", vault]` -/
  | execution (vault : Pubkey)
  /-- `[b"asset_plan", vault]` -/
  | assetPlan (vault : Pubkey)
  /-- `[b"token_dist", vault, mint]` -/
  | tokenDist (vault mint : Pubkey)
  /-- The associated token account of `wallet` for `mint` under `program`. -/
  | associatedToken (wallet mint : Pubkey) (program : TokenProgram)
  deriving DecidableEq, Repr

namespace Pubkey

/-- The zero key. As the mint of an assignment it stands for SOL. -/
def default : Pubkey := .key 0

/-- Only plain keys sign transactions: a derived address has no private key. -/
def canSign : Pubkey → Bool
  | .key _ => true
  | _ => false

theorem ne_vault_of_canSign {k o : Pubkey} (h : k.canSign = true) : k ≠ .vault o := by
  rintro rfl
  cases h

theorem ne_vault_self (o : Pubkey) : o ≠ .vault o := by
  intro h
  have hsize := congrArg sizeOf h
  simp at hsize

end Pubkey

end DeadMansVault
