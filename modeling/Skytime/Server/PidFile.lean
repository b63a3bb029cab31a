/-
# Skytime.Server.PidFile — the file that holds the process id of the server.

`createPidFile` opens the file without truncating it and writes the decimal digits at its beginning,
so what a longer earlier content holds behind them stays. The file is removed when `exit` is typed
at the console; a signal ends the process without removing it, and the next start finds what it has
written.
-/
import Mathlib.Data.List.Basic
import Mathlib.Logic.Function.Basic
import Skytime.Process.Machine

namespace Skytime

open Process

/-! ## Writing a file -/

/-- The files, by name, as far as they exist. -/
abbrev Disk := String → Option (List UInt8)

/-- A file of content `old` after `new` has been written at its beginning. -/
def overwrite (old new : List UInt8) : List UInt8 := new ++ old.drop new.length

theorem overwrite_eq_iff (old new : List UInt8) :
    overwrite old new = new ↔ old.length ≤ new.length := by
  unfold overwrite
  rw [List.append_right_eq_self, List.drop_eq_nil_iff]

theorem length_overwrite_le_iff {old new : List UInt8} {n : ℕ} :
    (overwrite old new).length ≤ n ↔ old.length ≤ n ∧ new.length ≤ n := by
  unfold overwrite
  rw [List.length_append, List.length_drop]
  omega

/-- What was written can be read at the beginning of the file. -/
theorem prefix_overwrite (old new : List UInt8) : new <+: overwrite old new :=
  List.prefix_append new _

/-! ## `createPidFile` -/

/-- How the operating system answers the calls of `createPidFile`. -/
structure FileCalls where
  /-- `os.MkdirAll` succeeds -/
  mkdirAll : Bool
  /-- `os.OpenFile` succeeds -/
  openFile : Bool
  /-- how many bytes `WriteString` can write -/
  room : ℕ
  deriving DecidableEq, Repr

inductive FileError where
  | mkdirAll
  | openFile
  | write
  deriving DecidableEq, Repr

/-- `fmt.Sprintf("%d", os.Getpid())`. -/
def pidDigits (pid : ℕ) : List UInt8 := (toString pid).toUTF8.toList

/-- `createPidFile`. The file is opened with `O_CREATE|O_WRONLY`: an absent file is created, a
present one keeps its content. -/
def createPidFile (calls : FileCalls) (pid : ℕ) (filename : String) (disk : Disk) :
    Option FileError × Disk :=
  if filename.utf8ByteSize = 0 then (none, disk)
  else if ¬ calls.mkdirAll then (some .mkdirAll, disk)
  else if ¬ calls.openFile then (some .openFile, disk)
  else
    let content := overwrite ((disk filename).getD []) ((pidDigits pid).take calls.room)
    (if calls.room < (pidDigits pid).length then some .write else none,
      Function.update disk filename (some content))

/-- `removePidFile`; `removes` says whether `os.Remove` succeeds. -/
def removePidFile (removes : Bool) (filename : String) (disk : Disk) : Disk :=
  if filename.utf8ByteSize = 0 then disk
  else
    match disk filename with
    | none => disk
    | some _ => if removes then Function.update disk filename none else disk

/-- What a successful call leaves in the file. -/
theorem createPidFile_content {calls : FileCalls} {pid : ℕ} {filename : String} {disk disk' : Disk}
    (hname : filename ≠ "") (h : createPidFile calls pid filename disk = (none, disk')) :
    disk' filename = some (overwrite ((disk filename).getD []) (pidDigits pid)) := by
  have hsize : filename.utf8ByteSize ≠ 0 := by simpa using hname
  unfold createPidFile at h
  rw [if_neg hsize] at h
  split at h
  · exact absurd h (by simp)
  · split at h
    · exact absurd h (by simp)
    · obtain ⟨hroom, rfl⟩ := Prod.mk.inj h
      have hfits : ¬ calls.room < (pidDigits pid).length := by simpa using hroom
      rw [Function.update_self, List.take_of_length_le (Nat.not_lt.mp hfits)]

/-- **After `createPidFile` has succeeded the file holds the digits of the process id and nothing
else exactly when the earlier content, if there was any, was no longer than these digits.** -/
theorem createPidFile_iff {calls : FileCalls} {pid : ℕ} {filename : String} {disk disk' : Disk}
    (hname : filename ≠ "") (h : createPidFile calls pid filename disk = (none, disk')) :
    disk' filename = some (pidDigits pid) ↔
      ∀ old, disk filename = some old → old.length ≤ (pidDigits pid).length := by
  rw [createPidFile_content hname h, Option.some.injEq, overwrite_eq_iff]
  cases disk filename with
  | none => simp
  | some old => simp

/-! ## Starts and exits -/

/-- `pid_file`. -/
def pidFile : String := "log/skytime.pid"

/-- What a start and an exit do to the file. -/
inductive PidEvent where
  /-- `WriteString` has written this many bytes -/
  | wrote (bytes : ℕ)
  | removed
  deriving DecidableEq, Repr

/-- The files, and the process that is running. -/
structure PidState where
  disk : Disk
  running : Option ℕ

inductive PidAction where
  /-- `main` up to `createPidFile`; a failure ends the process with `glog.Fatalf` -/
  | start (calls : FileCalls) (pid : ℕ)
  /-- the signal handler calls `os.Exit(0)`, or the process is killed -/
  | signalExit
  /-- `exit` is typed at the console -/
  | consoleExit (removes : Bool)
  deriving DecidableEq, Repr

/-- The bytes that a start writes, if it gets so far. -/
def FileCalls.writes (calls : FileCalls) (pid : ℕ) : List PidEvent :=
  if calls.mkdirAll ∧ calls.openFile then [.wrote (min calls.room (pidDigits pid).length)] else []

def PidState.step (s : PidState) : PidAction → Option (PidState × List PidEvent)
  | .start calls pid =>
    if s.running = none then
      match createPidFile calls pid pidFile s.disk with
      | (none, disk) => some (⟨disk, some pid⟩, calls.writes pid)
      | (some _, disk) => some (⟨disk, none⟩, calls.writes pid)
    else none
  | .signalExit =>
    match s.running with
    | some _ => some ({ s with running := none }, [])
    | none => none
  | .consoleExit removes =>
    match s.running with
    | some _ =>
      some (⟨removePidFile removes pidFile s.disk, none⟩, if removes then [.removed] else [])
    | none => none

/-- A machine on which the server has never run. -/
def pidRuns : Machine PidState PidAction PidEvent where
  init := ⟨fun _ => none, none⟩
  step := PidState.step

/-- The numbers of bytes written since the file was last removed. -/
def sinceRemoval (l : List PidEvent) : List ℕ :=
  l.foldl (fun bytes e => match e with
    | .wrote k => bytes ++ [k]
    | .removed => []) []

@[simp] theorem sinceRemoval_wrote (l : List PidEvent) (k : ℕ) :
    sinceRemoval (l ++ [.wrote k]) = sinceRemoval l ++ [k] := by
  unfold sinceRemoval
  rw [List.foldl_append]
  rfl

@[simp] theorem sinceRemoval_removed (l : List PidEvent) :
    sinceRemoval (l ++ [.removed]) = [] := by
  unfold sinceRemoval
  rw [List.foldl_append]
  rfl

namespace PidState

variable {s t : PidState} {l o : List PidEvent}

/-- No content, or one of at most `n` bytes. -/
def FileWithin (disk : Disk) (n : ℕ) : Prop := ∀ old, disk pidFile = some old → old.length ≤ n

/-- The file is as long as the longest write since its removal, and begins with the digits of the
running process. -/
structure Inv (s : PidState) (l : List PidEvent) : Prop where
  within_iff : ∀ n, FileWithin s.disk n ↔ ∀ k ∈ sinceRemoval l, k ≤ n
  running : ∀ pid, s.running = some pid →
    ∃ content, s.disk pidFile = some content ∧ pidDigits pid <+: content

theorem Inv.init : pidRuns.init.Inv [] :=
  ⟨fun _ => by simp [FileWithin, pidRuns, sinceRemoval], fun _ h => absurd h (by simp [pidRuns])⟩

/-- A start writes nothing, or a number of digits over the beginning of the file. -/
theorem createPidFile_cases {calls : FileCalls} {pid : ℕ} {disk disk' : Disk}
    {e : Option FileError} (h : createPidFile calls pid pidFile disk = (e, disk')) :
    (e ≠ none ∧ disk' = disk ∧ calls.writes pid = []) ∨
      ∃ new, calls.writes pid = [.wrote new.length] ∧ (e = none → new = pidDigits pid) ∧
        disk' pidFile = some (overwrite ((disk pidFile).getD []) new) := by
  have hsize : pidFile.utf8ByteSize ≠ 0 := by decide
  unfold createPidFile at h
  rw [if_neg hsize] at h
  split at h
  · rename_i hdir
    obtain ⟨rfl, rfl⟩ := Prod.mk.inj h
    exact .inl ⟨by simp, rfl, by simp_all [FileCalls.writes]⟩
  · rename_i hdir
    split at h
    · rename_i hopen
      obtain ⟨rfl, rfl⟩ := Prod.mk.inj h
      exact .inl ⟨by simp, rfl, by simp_all [FileCalls.writes]⟩
    · rename_i hopen
      obtain ⟨rfl, rfl⟩ := Prod.mk.inj h
      refine .inr ⟨(pidDigits pid).take calls.room, ?_, fun hroom => ?_, Function.update_self ..⟩
      · rw [List.length_take]
        simp_all [FileCalls.writes]
      · have hfits : ¬ calls.room < (pidDigits pid).length := by simpa using hroom
        exact List.take_of_length_le (Nat.not_lt.mp hfits)

/-- A write over the beginning of the file. -/
theorem Inv.write (h : s.Inv l) {new : List UInt8} {disk : Disk} {running : Option ℕ}
    (hdisk : disk pidFile = some (overwrite ((s.disk pidFile).getD []) new))
    (hrunning : ∀ pid, running = some pid → new = pidDigits pid) :
    Inv ⟨disk, running⟩ (l ++ [.wrote new.length]) := by
  constructor
  · intro n
    have hold : FileWithin s.disk n ↔ ((s.disk pidFile).getD []).length ≤ n := by
      unfold FileWithin
      cases s.disk pidFile <;> simp
    have hnew : FileWithin disk n ↔ (overwrite ((s.disk pidFile).getD []) new).length ≤ n := by
      simp [FileWithin, hdisk]
    show FileWithin disk n ↔ _
    rw [hnew, length_overwrite_le_iff, ← hold, h.within_iff n, sinceRemoval_wrote]
    simp [or_imp, forall_and]
  · intro pid hpid
    refine ⟨_, hdisk, ?_⟩
    rw [← hrunning pid hpid]
    exact prefix_overwrite _ new

theorem Inv.step {a : PidAction} (h : s.Inv l) (hstep : pidRuns.step s a = some (t, o)) :
    t.Inv (l ++ o) := by
  cases a with
  | start calls pid =>
      obtain ⟨-, hstep⟩ := Option.ite_none_right_eq_some.mp hstep
      split at hstep
      · rename_i disk hcreate
        obtain ⟨rfl, rfl⟩ := Prod.mk.inj (Option.some.inj hstep)
        rcases createPidFile_cases hcreate with ⟨hnone, -⟩ | ⟨new, hwrites, hdone, hdisk⟩
        · exact absurd rfl hnone
        · rw [hwrites]
          refine h.write hdisk fun pid' hpid => ?_
          obtain rfl := Option.some.inj hpid
          exact hdone rfl
      · rename_i e disk hcreate
        obtain ⟨rfl, rfl⟩ := Prod.mk.inj (Option.some.inj hstep)
        rcases createPidFile_cases hcreate with ⟨-, rfl, hwrites⟩ | ⟨new, hwrites, -, hdisk⟩
        · rw [hwrites, List.append_nil]
          exact ⟨h.within_iff, fun _ hpid => absurd hpid (by simp)⟩
        · rw [hwrites]
          exact h.write hdisk fun _ hpid => absurd hpid (by simp)
  | signalExit =>
      simp only [pidRuns, PidState.step] at hstep
      split at hstep
      · obtain ⟨rfl, rfl⟩ := Prod.mk.inj (Option.some.inj hstep)
        rw [List.append_nil]
        exact ⟨h.within_iff, fun _ hpid => absurd hpid (by simp)⟩
      · exact absurd hstep (by simp)
  | consoleExit removes =>
      simp only [pidRuns, PidState.step] at hstep
      split at hstep
      · rename_i pid hpid
        obtain ⟨rfl, rfl⟩ := Prod.mk.inj (Option.some.inj hstep)
        obtain ⟨content, hcontent, -⟩ := h.running pid hpid
        have hsize : pidFile.utf8ByteSize ≠ 0 := by decide
        simp only [removePidFile, if_neg hsize, hcontent]
        cases removes with
        | true =>
            refine ⟨fun n => ?_, fun _ hpid => absurd hpid (by simp)⟩
            simp [FileWithin]
        | false =>
            refine ⟨fun n => ?_, fun _ hpid => absurd hpid (by simp)⟩
            simpa using h.within_iff n
      · exact absurd hstep (by simp)

end PidState

/-- **While a process runs, the file holds exactly its id if and only if no start since the file
was last removed has written more digits.** So after a signal a process with a shorter id is not
named by the file. -/
theorem pidFile_names_process (r : pidRuns.Run) :
    r.Always fun s l => ∀ pid, s.running = some pid →
      (s.disk pidFile = some (pidDigits pid) ↔
        ∀ k ∈ sinceRemoval l, k ≤ (pidDigits pid).length) := by
  have hinv : r.Always fun s l => s.Inv l :=
    Machine.Run.always PidState.Inv.init (fun s l a t o h hstep => h.step hstep) r
  refine hinv.mono fun s l h pid hpid => ?_
  obtain ⟨content, hcontent, hstarts⟩ := h.running pid hpid
  rw [← h.within_iff, PidState.FileWithin, hcontent, Option.some.injEq]
  constructor
  · rintro rfl old hold
    rw [Option.some.inj hold]
  · intro hle
    -- a prefix of at least the same length is the whole
    exact (hstarts.eq_of_length_le (hle content rfl)).symm

/-! ## A shorter id after a longer one -/

/-- A process with the id 12345 is ended by a signal, and the next one gets the id 678. -/
def shorterPid : pidRuns.Run :=
  .ofActs [.start ⟨true, true, 5⟩ 12345, .signalExit, .start ⟨true, true, 5⟩ 678]
    (by decide +kernel)

/-- A file that holds 12345 is left with 67845 when the process 678 has written its id, and the run
of a server gets there. -/
theorem shorterPid_garbled :
    (∃ disk disk', disk pidFile = some (pidDigits 12345) ∧
      createPidFile ⟨true, true, 5⟩ 678 pidFile disk = (none, disk') ∧
      disk' pidFile = some (pidDigits 67845) ∧ disk' pidFile ≠ some (pidDigits 678)) ∧
    shorterPid.last.running = some 678 ∧
      shorterPid.last.disk pidFile = some (pidDigits 67845) := by
  refine ⟨⟨Function.update (fun _ => none) pidFile (some (pidDigits 12345)), _,
    Function.update_self .., Prod.ext ?_ rfl, ?_, ?_⟩, ?_, ?_⟩ <;> decide +kernel

/-- A file with a shorter number. -/
def shortStale : Disk := Function.update (fun _ => none) pidFile (some (pidDigits 99))

/-- Over a shorter content the digits are all that the file holds. -/
theorem shortStale_replaced :
    (createPidFile ⟨true, true, 5⟩ 678 pidFile shortStale).2 pidFile = some (pidDigits 678) := by
  have hcreate : createPidFile ⟨true, true, 5⟩ 678 pidFile shortStale =
      (none, (createPidFile ⟨true, true, 5⟩ 678 pidFile shortStale).2) :=
    Prod.ext (by decide +kernel) rfl
  refine (createPidFile_iff (by decide) hcreate).mpr fun old hold => ?_
  rw [shortStale, Function.update_self] at hold
  obtain rfl := Option.some.inj hold
  decide +kernel

end Skytime
