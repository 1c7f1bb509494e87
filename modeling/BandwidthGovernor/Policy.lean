import Mathlib.Data.List.Sort
import BandwidthGovernor.Records

/-! The weighted water-fill allocator (`policy.cpp`).

    `allocateWeighted` is the three-phase function of the source: minima first, scaled down when
    they do not fit; then a loop that raises all active slots together until the capacity or the
    slots run out; then the clamp to the caps. A slot pointer of the source is the slot's index. -/

namespace BG

structure AllocEntry where
  flow : FlowId
  weight : ℚ := 1
  min : ℚ := 0
  want : ℚ := 0
  max : ℚ := 0

structure AllocResult where
  granted : List ℚ
  totalRequested : ℚ
  totalGranted : ℚ
  unserved : ℚ
  saturated : Bool
  deadlinePressure : ℚ := 0

/-- A running contender for the water-fill. -/
structure Slot where
  index : ℕ
  weight : ℚ
  min : ℚ
  want : ℚ
  max : ℚ
  granted : ℚ

/-- Weights that are not in `(0, kMaxRate)` count as 1. -/
def sanitiseWeight (w : ℚ) : ℚ := if ¬ 0 < w ∨ ¬ w < kMaxRate then 1 else w

/-- The slot of entry `e` at position `i`, its grant already at the minimum (phase 1). -/
def toSlot (i : ℕ) (e : AllocEntry) : Slot where
  index := i
  weight := sanitiseWeight e.weight
  min := clamp e.min 0 e.max
  want := clamp e.want (clamp e.min 0 e.max) e.max
  max := e.max
  granted := clamp e.min 0 e.max

def toSlots (entries : List AllocEntry) : List Slot := entries.mapIdx toSlot

/-- The slots the active pointers refer to, in pointer order. -/
def activeSlots (slots : List Slot) (active : List ℕ) : List Slot :=
  active.filterMap fun i => slots[i]?

/-- The comparator of the source's sort: flow id ascending, then index. -/
def slotLess (entries : List AllocEntry) (a b : ℕ) : Bool :=
  match entries[a]?, entries[b]? with
  | some ea, some eb => if ea.flow ≠ eb.flow then ea.flow.lt eb.flow else decide (a < b)
  | _, _ => decide (a < b)

/-- State of the water-fill loop. -/
structure Fill where
  slots : List Slot
  active : List ℕ
  remaining : ℚ

namespace Fill

def weightSum (st : Fill) : ℚ := ((activeSlots st.slots st.active).map Slot.weight).sum

/-- The smallest room per weight unit among the active slots; `none` is infinity. -/
def minRoom (st : Fill) : Option ℚ :=
  (activeSlots st.slots st.active).foldl (fun m s =>
    let room := (s.want - s.granted) / s.weight
    match m with
    | none => some room
    | some m => if room < m then some room else some m) none

/-- How far the level rises in this round. -/
def rise (st : Fill) : ℚ :=
  let incUnits := st.remaining / st.weightSum
  match st.minRoom with
  | none => incUnits
  | some room => if room < incUnits then room else incUnits

def raise (active : List ℕ) (step : ℚ) (slots : List Slot) : List Slot :=
  slots.map fun s => if s.index ∈ active then { s with granted := s.granted + step * s.weight }
    else s

/-- A slot that reached its target leaves the active list. -/
def unfilled (slots : List Slot) (i : ℕ) : Bool :=
  match slots[i]? with
  | some s => !decide (s.granted ≥ s.want - kEps)
  | none => false

/-- One iteration of the loop body. -/
def step (st : Fill) : Fill :=
  let slots := raise st.active st.rise st.slots
  let remaining := st.remaining - st.rise * st.weightSum
  { slots := slots
    active := st.active.filter (unfilled slots)
    remaining := if remaining < 0 then 0 else remaining }

/-- `while (remaining > kEps && !active.empty())`, with its break on a non-positive weight sum. -/
def loop : ℕ → Fill → Fill
  | 0, st => st
  | n + 1, st =>
    if kEps < st.remaining ∧ st.active ≠ [] then
      if st.weightSum ≤ 0 then st else loop n st.step
    else st

/-- The state in which the loop starts. -/
def start (entries : List AllocEntry) (capacity : ℚ) : Fill :=
  let slots := toSlots entries
  let active := (slots.filter fun s => decide (s.want > s.granted + kEps)).map Slot.index
  { slots := slots
    active := active.insertionSort fun a b => slotLess entries b a = false
    remaining := capacity - (slots.map Slot.min).sum }

/-- The loop with enough fuel: every round but the last removes a slot (`loop_exit`). -/
def run (entries : List AllocEntry) (capacity : ℚ) : Fill :=
  loop ((start entries capacity).active.length + 1) (start entries capacity)

end Fill

/-- The branch taken when the minima exceed the capacity: minima scaled down, leftovers by
    weight. -/
def scaleMinima (slots : List Slot) (capacity : ℚ) : List ℚ :=
  let scale := capacity / (slots.map Slot.min).sum
  let val := slots.map fun s => s.min * scale
  let leftover := capacity - val.sum
  if leftover > kEps then
    let wsum := (slots.map Slot.weight).sum
    if wsum > 0 then slots.map fun s => s.min * scale + leftover * (s.weight / wsum) else val
  else val

def allocateWeighted (entries : List AllocEntry) (capacity : ℚ) : AllocResult :=
  if entries.isEmpty ∨ capacity ≤ 0 then
    { granted := entries.map fun _ => 0, totalRequested := 0, totalGranted := 0, unserved := 0,
      saturated := false }
  else
    let slots := toSlots entries
    let totalRequested := (slots.map Slot.want).sum
    if (slots.map Slot.min).sum > capacity + kEps then
      let val := scaleMinima slots capacity
      { granted := List.zipWith (fun v (e : AllocEntry) => clamp v 0 e.max) val entries
        totalRequested := totalRequested
        totalGranted := val.sum
        unserved := max 0 (totalRequested - val.sum)
        saturated := decide (totalRequested > capacity + kEps) }
    else
      let granted := (Fill.run entries capacity).slots.map fun s => clamp s.granted 0 s.max
      { granted := granted
        totalRequested := totalRequested
        totalGranted := granted.sum
        unserved := max 0 (totalRequested - granted.sum)
        saturated := decide (totalRequested > capacity + kEps) }

end BG
