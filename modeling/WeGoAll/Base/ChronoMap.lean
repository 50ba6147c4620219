import WeGoAll.Base.Libraries

/-!
# Base — ChronoMap

A store of key/value blocks, each valid from its start time.  The blocks up to `expirationTime`
are in `data`, per key the times at which its value changed; blocks that start later wait in
`futureData`.  Locks and condition variables are left out.
-/

namespace Wga

/-- `std::map<int64_t, ν>`: the entries by increasing key. -/
structure TimeMap (ν : Type) where
  entries : List (Int × ν)
  sorted : entries.Pairwise fun a b => a.1 < b.1

namespace TimeMap

variable {ν : Type}

def empty : TimeMap ν := ⟨[], List.Pairwise.nil⟩

def insertEntry (t : Int) (v : ν) : List (Int × ν) → List (Int × ν)
  | [] => [(t, v)]
  | e :: es =>
      if t < e.1 then (t, v) :: e :: es
      else if t = e.1 then (t, v) :: es
      else e :: insertEntry t v es

theorem mem_insertEntry {t : Int} {v : ν} {l : List (Int × ν)} {a : Int × ν}
    (h : a ∈ insertEntry t v l) : a = (t, v) ∨ a ∈ l := by
  induction l with
  | nil => exact Or.inl (List.mem_singleton.mp h)
  | cons e es ih =>
      rw [insertEntry] at h
      split at h
      · exact List.mem_cons.mp h
      · split at h
        · exact (List.mem_cons.mp h).imp_right (List.mem_cons_of_mem _)
        · rcases List.mem_cons.mp h with rfl | h
          · exact Or.inr List.mem_cons_self
          · exact (ih h).imp_right (List.mem_cons_of_mem _)

theorem sorted_insertEntry (t : Int) (v : ν) {l : List (Int × ν)}
    (h : l.Pairwise fun a b => a.1 < b.1) :
    (insertEntry t v l).Pairwise fun a b => a.1 < b.1 := by
  induction l with
  | nil => exact List.pairwise_singleton _ _
  | cons e es ih =>
      obtain ⟨he, hes⟩ := List.pairwise_cons.mp h
      rw [insertEntry]
      split
      · rename_i hlt
        refine List.pairwise_cons.mpr ⟨fun a ha => ?_, h⟩
        rcases List.mem_cons.mp ha with rfl | ha
        · exact hlt
        · exact hlt.trans (he a ha)
      · split
        · rename_i heq
          exact List.pairwise_cons.mpr ⟨fun a ha => heq ▸ he a ha, hes⟩
        · refine List.pairwise_cons.mpr ⟨fun a ha => ?_, ih hes⟩
          rcases mem_insertEntry ha with rfl | ha
          · show e.1 < t
            omega
          · exact he a ha

/-- `m[t] = v`. -/
def set (t : Int) (v : ν) (m : TimeMap ν) : TimeMap ν :=
  ⟨insertEntry t v m.entries, sorted_insertEntry t v m.sorted⟩

/-- `m.insert(make_pair(t, v))`: an existing entry is kept. -/
def emplace (t : Int) (v : ν) (m : TimeMap ν) : TimeMap ν :=
  if t ∈ m.entries.map Prod.fst then m else m.set t v

/-- `{{t, v}}`. -/
def single (t : Int) (v : ν) : TimeMap ν := ⟨[(t, v)], List.pairwise_singleton _ _⟩

/-- `m.rbegin()->second`. -/
def last (m : TimeMap ν) : Option ν := m.entries.getLast?.map Prod.snd

/-- The value before `m.upper_bound(t)`, that of the last entry not after `t`. -/
def valueAt (t : Int) (m : TimeMap ν) : Option ν :=
  (m.entries.takeWhile fun e => e.1 ≤ t).getLast?.map Prod.snd

/-- `m.erase(m.begin())`. -/
def eraseFirst (m : TimeMap ν) : TimeMap ν := ⟨m.entries.tail, m.sorted.tail⟩

end TimeMap

/-- An interval and the values it brings. -/
structure Block (κ ν : Type) where
  startTime : Int
  endTime : Int
  data : UnorderedMap κ ν

/-- The members of `ChronoMap<κ, ν>`. -/
structure ChronoMap (κ ν : Type) where
  data : UnorderedMap κ (TimeMap ν)
  expirationTime : Int
  futureData : TimeMap (Block κ ν)

namespace ChronoMap

variable {κ ν : Type} [DecidableEq κ] [DecidableEq ν]

/-- The constructor. -/
def new : ChronoMap κ ν := ⟨∅, 0, .empty⟩

/-- The body of the loop of `addNextTimeBlock` over the new values. -/
def addValue (startTime : Int) (data : UnorderedMap κ (TimeMap ν)) (k : κ) (v : ν) :
    UnorderedMap κ (TimeMap ν) :=
  match data.lookup k with
  | none => data.insert k (.single startTime v)
  | some times =>
      if times.last = some v then data else data.insert k (times.set startTime v)

/-- `addNextTimeBlock`; each call it makes erases an entry of `futureData`, so one more than these
is `fuel` enough. -/
def addNextTimeBlock : Nat → Block κ ν → ChronoMap κ ν → Except Fault (ChronoMap κ ν)
  | 0, _, m => .ok m
  | fuel + 1, b, m =>
      if m.expirationTime ≠ b.startTime then
        .error (.fatal "Tried to add an invalid time block")
      else if m.data.entries = [] ∧ b.startTime ≠ 0 then
        .error (.fatal "Inserting into an empty map should always use 0")
      else
        let m := { m with
          data := b.data.entries.foldl (fun data (e : Σ _ : κ, ν) =>
            addValue b.startTime data e.1 e.2) m.data
          expirationTime := b.endTime }
        match m.futureData.entries with
        | [] => .ok m
        | (t, newData) :: _ =>
            if t = m.expirationTime then
              addNextTimeBlock fuel newData { m with futureData := m.futureData.eraseFirst }
            else .ok m

def put (startTime endTime : Int) (data : UnorderedMap κ ν) (m : ChronoMap κ ν) :
    Except Fault (ChronoMap κ ν) :=
  if startTime < 0 then .error (.fatal "Tried to put before start time")
  else if startTime < m.expirationTime then .ok m
  else if startTime ≥ endTime then .error (.fatal "Invalid start/end time: ")
  else if startTime ≠ m.expirationTime then
    .ok { m with futureData := m.futureData.emplace startTime ⟨startTime, endTime, data⟩ }
  else addNextTimeBlock (m.futureData.entries.length + 1) ⟨startTime, endTime, data⟩ m

def get (timestamp : Int) (key : κ) (m : ChronoMap κ ν) : Except Fault (Option ν) :=
  if timestamp < 0 then .error (.fatal "Invalid time stamp")
  else if timestamp ≥ m.expirationTime then .ok none
  else
    match m.data.lookup key with
    | none => .ok none
    | some times => .ok (times.valueAt timestamp)

/-- `getAll`. -/
def getAll (timestamp : Int) (m : ChronoMap κ ν) : Except Fault (UnorderedMap κ ν) :=
  m.data.entries.foldlM (fun retval it => do
    match ← m.get timestamp it.1 with
    | none => .ok retval
    | some value => .ok (retval.insert it.1 value)) ∅

/-- The values of `futureData` that differ from the last ones known. -/
def getChanges (futureData : UnorderedMap κ ν) (m : ChronoMap κ ν) : UnorderedMap κ ν :=
  futureData.entries.foldl (fun changes it =>
    match m.data.lookup it.1 with
    | none => changes.insert it.1 it.2
    | some times => if times.last ≠ some it.2 then changes.insert it.1 it.2 else changes) ∅

end ChronoMap

end Wga
