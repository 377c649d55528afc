import ActorMachine.Process

set_option autoImplicit false

/-!
The table of live processes.

Process numbers are given out in order and never again, so the table is an array with a place for
every process there ever was; the place of a dead one is empty. Place zero is never given out.
-/

namespace ActorMachine

structure ProcessTable where
  places : Array (Option Process) := #[none]
  deriving Inhabited

namespace ProcessTable

def find? (table : ProcessTable) (pid : ProcessId) : Option Process :=
  match table.places[pid]? with
  | some place => place
  | none => none

def isLive (table : ProcessTable) (pid : ProcessId) : Bool := (table.find? pid).isSome

/-- The number of the next process. -/
def nextPid (table : ProcessTable) : ProcessId := table.places.size

/-- Adds a process under the next number. -/
def add (table : ProcessTable) (p : Process) : ProcessTable := ⟨table.places.push (some p)⟩

/-- Replaces a process. -/
def put (table : ProcessTable) (pid : ProcessId) (p : Process) : ProcessTable :=
  ⟨table.places.setIfInBounds pid (some p)⟩

/-- Takes a process out. -/
def erase (table : ProcessTable) (pid : ProcessId) : ProcessTable :=
  ⟨table.places.setIfInBounds pid none⟩

/-- The number of live processes. -/
def count (table : ProcessTable) : Nat := table.places.countP Option.isSome

/-- The live processes with their numbers, in order. -/
def toList (table : ProcessTable) : List (ProcessId × Process) :=
  (table.places.toList.zipIdx).filterMap fun (place, pid) => place.map fun p => (pid, p)

/-- The numbers of the live processes, in order. -/
def pids (table : ProcessTable) : List ProcessId := table.toList.map (·.1)

theorem find?_put (table : ProcessTable) (pid other : ProcessId) (p : Process) :
    (table.put pid p).find? other =
      if pid = other ∧ other < table.places.size then some p else table.find? other := by
  unfold put find?
  by_cases same : pid = other
  · subst same
    by_cases inside : pid < table.places.size
    · simp [inside]
    · simp [inside]
  · simp [same, Array.getElem?_setIfInBounds_ne]

theorem find?_erase (table : ProcessTable) (pid other : ProcessId) :
    (table.erase pid).find? other = if pid = other then none else table.find? other := by
  unfold erase find?
  by_cases same : pid = other
  · subst same
    by_cases inside : pid < table.places.size
    · simp [inside]
    · simp [inside]
  · simp [same, Array.getElem?_setIfInBounds_ne]

theorem lt_of_find? {table : ProcessTable} {pid : ProcessId} {p : Process}
    (found : table.find? pid = some p) : pid < table.places.size := by
  unfold find? at found
  split at found
  · rename_i place present
    exact (Array.getElem?_eq_some_iff.1 present).1
  · contradiction

theorem getElem_of_find? {table : ProcessTable} {pid : ProcessId} {p : Process}
    (inside : pid < table.places.size) (found : table.find? pid = some p) :
    table.places[pid] = some p := by
  unfold find? at found
  simpa [Array.getElem?_eq_getElem inside] using found

theorem count_put {table : ProcessTable} {pid : ProcessId} {before : Process} (after : Process)
    (found : table.find? pid = some before) : (table.put pid after).count = table.count := by
  have inside := lt_of_find? found
  have place := getElem_of_find? inside found
  have positive : 0 < table.count := by
    unfold count
    exact Array.countP_pos_iff.2 ⟨some before, by rw [← place]; exact Array.getElem_mem inside, rfl⟩
  unfold put count at *
  rw [Array.setIfInBounds_def, dif_pos inside, Array.countP_set inside, place]
  simp only [Option.isSome_some, if_true]
  omega

theorem count_erase {table : ProcessTable} {pid : ProcessId} {p : Process}
    (found : table.find? pid = some p) : (table.erase pid).count < table.count := by
  have inside := lt_of_find? found
  have place := getElem_of_find? inside found
  have positive : 0 < table.count := by
    unfold count
    exact Array.countP_pos_iff.2 ⟨some p, by rw [← place]; exact Array.getElem_mem inside, rfl⟩
  unfold erase count at *
  rw [Array.setIfInBounds_def, dif_pos inside, Array.countP_set inside, place]
  simp only [Option.isSome_some, Option.isSome_none, if_true, Bool.false_eq_true, if_false]
  omega

end ProcessTable

end ActorMachine
