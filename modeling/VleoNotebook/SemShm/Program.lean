import VleoNotebook.Lib.Semaphores

/-! A server and its clients over a shared memory segment (`test_sem_shm`).

The first semaphore is to say that the segment is in use, the second how often it has been
changed. Every process takes its steps on its own; a `semop` is one step, and so is each
byte that a client copies or the server prints. What a semaphore holds before it is set is
anything. -/
namespace VleoNotebook.SemShm

open SysV (SemBuf semop)

def nummsg : Nat := 2

def sizeofshmseg : Nat := 50

/-- `"Hello from Client"` -/
def text : List UInt8 := "Hello from Client".toList.map fun c => UInt8.ofNat c.toNat

/-- What `strcpy` copies. -/
def copied : List UInt8 := text ++ [0]

/-! ### The operations -/

/-- The server waits for a change, and the segment is in use. -/
def takeOperations : List SemBuf := [⟨1, -1, false⟩, ⟨0, 1, true⟩]

/-- The server is done with the segment. -/
def freeOperations : List SemBuf := [⟨0, -1, true⟩]

/-- A client waits for the segment, which is in use then. -/
def lockOperations : List SemBuf := [⟨0, 0, false⟩, ⟨0, 1, false⟩]

/-- A client is done, and the segment has been changed. -/
def signalOperations : List SemBuf := [⟨0, -1, false⟩, ⟨1, 1, false⟩]

/-! ### The processes -/

/-- In front of which call the server is; `i` counts the messages. -/
inductive Server where
  | semget
  | setall
  | shmget
  | take (i : Nat)
  | print (i : Nat) (out : List UInt8)
  | free (i : Nat)
  | rmid
  | shmdt
  | shmrm
  | ended
  | failed
deriving DecidableEq, Repr

/-- In front of which call a client is; `k` bytes have been copied. -/
inductive Client where
  | semget
  | shmget
  | lock
  | copy (k : Nat)
  | signal
  | shmdt
  | ended
  | semgetFailed
  | shmgetFailed
  | lockFailed
  | signalFailed
deriving DecidableEq, Repr

structure State (C : Type) where
  server : Server
  client : C → Client
  /-- The set of semaphores, if there is one. -/
  sems : Option (List Nat)
  /-- There is a segment for the key. -/
  shm : Bool
  memory : List UInt8
  printed : List (List UInt8)

inductive Action (C : Type) where
  /-- A step of the server. A set it makes has these values. -/
  | server (first second : Nat)
  | client (c : C)
deriving DecidableEq, Repr

/-- `for (i=0; i < NUMMSG; i++)` -/
def loop (i : Nat) : Server := if i < nummsg then .take i else .rmid

variable {C : Type} [DecidableEq C]

/-- All processes have been started, and nothing is there. -/
def start : State C := ⟨.semget, fun _ => .semget, none, false, [], []⟩

def State.become (s : State C) (c : C) (pc : Client) : State C :=
  {s with client := Function.update s.client c pc}

/-- A step of the server; it has none when it waits or has ended. -/
def stepServer (first second : Nat) (s : State C) : Option (State C) :=
  match s.server with
  | .semget => some {s with sems := some [first, second], server := .setall}
  | .setall => some {s with sems := some [0, 0], server := .shmget}
  | .shmget =>
    some {s with shm := true, memory := List.replicate sizeofshmseg 0, server := loop 0}
  | .take i =>
    match semop s.sems takeOperations with
    | .done vals => some {s with sems := some vals, server := .print i []}
    | .wait => none
    | .error => some {s with server := .failed}
  | .print i out =>
    let byte := (s.memory[out.length]?).getD 0
    if byte = 0 then some {s with printed := s.printed ++ [out], server := .free i}
    else some {s with server := .print i (out ++ [byte])}
  | .free i =>
    match semop s.sems freeOperations with
    | .done vals => some {s with sems := some vals, server := loop (i + 1)}
    | .wait => none
    | .error => some {s with server := .failed}
  | .rmid => some {s with sems := none, server := .shmdt}
  | .shmdt => some {s with server := .shmrm}
  | .shmrm => some {s with shm := false, server := .ended}
  | .ended | .failed => none

/-- A step of a client. -/
def stepClient (c : C) (s : State C) : Option (State C) :=
  match s.client c with
  | .semget => some (s.become c (if s.sems.isSome then .shmget else .semgetFailed))
  | .shmget => some (s.become c (if s.shm then .lock else .shmgetFailed))
  | .lock =>
    match semop s.sems lockOperations with
    | .done vals => some ({s with sems := some vals}.become c (.copy 0))
    | .wait => none
    | .error => some (s.become c .lockFailed)
  | .copy k =>
    match copied[k]? with
    | some byte => some ({s with memory := s.memory.set k byte}.become c (.copy (k + 1)))
    | none => some (s.become c .signal)
  | .signal =>
    match semop s.sems signalOperations with
    | .done vals => some ({s with sems := some vals}.become c .shmdt)
    | .wait => none
    | .error => some (s.become c .signalFailed)
  | .shmdt => some (s.become c .ended)
  | .ended | .semgetFailed | .shmgetFailed | .lockFailed | .signalFailed => none

def step (s : State C) : Action C → Option (State C)
  | .server first second => stepServer first second s
  | .client c => stepClient c s

/-! ### What the operations do -/

section Operations
variable {a b : Nat}

theorem semop_take : semop (some [a, b]) takeOperations =
    if b = 0 then .wait else if b ≤ SysV.semvmx + 1 ∧ a < SysV.semvmx then .done [a + 1, b - 1]
    else .error := by
  rw [takeOperations, semop, SysV.perform_down (v := b) rfl]
  by_cases hb : b = 0
  · rw [if_pos hb, if_pos hb]
    rfl
  · rw [if_neg hb, if_neg hb]
    by_cases hmax : b ≤ SysV.semvmx + 1
    · rw [if_pos hmax, SysV.perform_up (v := a) rfl]
      simp only [hmax, true_and]
      rfl
    · rw [if_neg hmax, if_neg (fun h => hmax h.1)]

theorem semop_free : semop (some [a, b]) freeOperations =
    if a = 0 then .error else if a ≤ SysV.semvmx + 1 then .done [a - 1, b] else .error := by
  rw [freeOperations, semop, SysV.perform_down (v := a) rfl]
  rfl

theorem semop_lock : semop (some [a, b]) lockOperations =
    if a = 0 then .done [1, b] else .wait := by
  rw [lockOperations, semop, SysV.perform_zero (v := a) rfl]
  by_cases ha : a = 0
  · subst ha
    rw [if_pos rfl, if_pos rfl, SysV.perform_up (v := 0) rfl]
    rfl
  · rw [if_neg ha, if_neg ha]
    rfl

theorem semop_signal : semop (some [a, b]) signalOperations =
    if a = 0 then .wait else if a ≤ SysV.semvmx + 1 ∧ b < SysV.semvmx then .done [a - 1, b + 1]
    else .error := by
  rw [signalOperations, semop, SysV.perform_down (v := a) rfl]
  by_cases ha : a = 0
  · rw [if_pos ha, if_pos ha]
    rfl
  · rw [if_neg ha, if_neg ha]
    by_cases hmax : a ≤ SysV.semvmx + 1
    · have hset : [a, b].set 0 (a - 1) = [a - 1, b] := rfl
      rw [if_pos hmax, hset, SysV.perform_up (v := b) rfl]
      simp only [hmax, true_and]
      rfl
    · rw [if_neg hmax, if_neg (fun h => hmax h.1)]

end Operations

end VleoNotebook.SemShm
