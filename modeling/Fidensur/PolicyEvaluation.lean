import Fidensur.PolicyValidation

set_option autoImplicit false

namespace Fidensur

structure Allocation where
  index : ℕ
  recipient : Address
  amount : ℤ
  deriving DecidableEq

def sumAllocations (allocs : List Allocation) : ℤ := (allocs.map Allocation.amount).sum

def capAmount (maxAlloc : Option ℤ) (amount : ℤ) : ℤ :=
  if capped maxAlloc = true ∧ value maxAlloc < amount then value maxAlloc else amount

def explicitAmounts (p : Policy) : List Allocation :=
  p.entries.map (fun e => ⟨0, e.recipient, capAmount p.maxAlloc (value e.amount)⟩)

def tieredAmounts (p : Policy) : ℕ → List PolicyEntry → Except PolicyError (List Allocation)
  | _, [] => .ok []
  | i, e :: rest =>
      match bandIndex p.bands (value e.weight) with
      | none => .error (.bandIndexOutOfRange i (value e.weight) p.bands.length)
      | some b => do
        let out ← tieredAmounts p (i + 1) rest
        return ⟨0, e.recipient, capAmount p.maxAlloc (bandAmount p.bands b)⟩ :: out

/-- One position of the arrays the weighted split keeps: an entry, its amount and its cap flag. -/
structure Share where
  recipient : Address
  weight : ℤ
  amount : ℤ
  isCapped : Bool
  deriving DecidableEq

def Share.ofEntry (e : PolicyEntry) : Share := ⟨e.recipient, value e.weight, 0, false⟩

def freeWeight (shares : List Share) : ℤ :=
  (shares.map (fun s => if s.isCapped then 0 else s.weight)).sum

def cappedSum (shares : List Share) : ℤ :=
  (shares.map (fun s => if s.isCapped then s.amount else 0)).sum

def Share.pass (maxAlloc : Option ℤ) (remaining weightSum : ℤ) (s : Share) : Share :=
  if s.isCapped then s
  else
    let share := remaining * s.weight / weightSum
    if capped maxAlloc = true ∧ value maxAlloc < share then
      { s with amount := value maxAlloc, isCapped := true }
    else { s with amount := share }

def weightedLoop (p : Policy) : ℕ → ℤ → List Share → Except PolicyError (List Share)
  | 0, _, shares => .ok shares
  | fuel + 1, remaining, shares =>
      let weightSum := freeWeight shares
      if weightSum = 0 then .ok shares
      else
        let pass := Share.pass p.maxAlloc remaining weightSum
        let next := shares.map pass
        -- without a newly capped entry nothing is left to redistribute
        if shares.any (fun s => !s.isCapped && (pass s).isCapped) = false then .ok next
        else
          let remaining := value p.totalBudget - cappedSum next
          if remaining < 0 then .error .cappedExceedBudget else weightedLoop p fuel remaining next

/-- The loop of `weightedAmounts`, before the dust is handed out. -/
def weightedShares (p : Policy) : Except PolicyError (List Share) :=
  weightedLoop p (p.entries.length + 1) (value p.totalBudget) (p.entries.map Share.ofEntry)

def dustOf (p : Policy) (shares : List Share) : ℤ :=
  value p.totalBudget - (shares.map Share.amount).sum

def Share.absorbs (maxAlloc : Option ℤ) (dust : ℤ) (s : Share) : Bool :=
  !s.isCapped && decide (s.weight ≠ 0) &&
    !(capped maxAlloc && decide (value maxAlloc < s.amount + dust))

/-- The first position that can take all of the dust does. -/
def giveDust (maxAlloc : Option ℤ) (dust : ℤ) : List Share → List Share
  | [] => []
  | s :: rest =>
      if s.absorbs maxAlloc dust then { s with amount := s.amount + dust } :: rest
      else s :: giveDust maxAlloc dust rest

def distributeDust (p : Policy) (shares : List Share) : List Share :=
  if dustOf p shares ≤ 0 then shares else giveDust p.maxAlloc (dustOf p shares) shares

def Share.allocation (s : Share) : Allocation := ⟨0, s.recipient, s.amount⟩

def weightedAmounts (p : Policy) : Except PolicyError (List Allocation) := do
  let shares ← weightedShares p
  return (distributeDust p shares).map Share.allocation

def computeAmounts (p : Policy) : Except PolicyError (List Allocation) :=
  if p.mode = modeExplicit then .ok (explicitAmounts p)
  else if p.mode = modeWeighted then weightedAmounts p
  else if p.mode = modeTiered then tieredAmounts p 0 p.entries
  else .error (.unsupportedMode p.mode)

/-- Zero amounts and those below the floor are dropped. -/
def keeps (minAlloc : Option ℤ) (amount : ℤ) : Bool :=
  decide (0 < amount) && !(capped minAlloc && decide (amount < value minAlloc))

def byRecipient (a b : Allocation) : Prop := a.recipient ≤ b.recipient

instance : DecidableRel byRecipient := fun a b => inferInstanceAs (Decidable (a.recipient ≤ b.recipient))

def assignIndices (rows : List Allocation) : List Allocation :=
  rows.mapIdx (fun i a => { a with index := i })

def tabulate (p : Policy) (amounts : List Allocation) : Except PolicyError (List Allocation) := do
  let kept := amounts.filter (fun a => keeps p.minAlloc a.amount)
  require (kept ≠ []) .allocatesNothing
  let table := assignIndices (kept.insertionSort byRecipient)
  require (sumAllocations table ≤ value p.totalBudget)
    (.totalExceedsBudget (sumAllocations table) (value p.totalBudget))
  return table

def evaluate (p : Policy) : Except PolicyError (List Allocation) := do
  let amounts ← computeAmounts p
  tabulate p amounts

end Fidensur
