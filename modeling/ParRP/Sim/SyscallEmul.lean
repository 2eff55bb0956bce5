import ParRP.Lib.Scanf
import ParRP.Ruby.MemProbe

/-!
# The scope markers `writeFunc` forwards to the probe

In syscall emulation every successful `write(2)` of a guest thread is scanned with
`sscanf(buffer, "[OMPTR] BB %d %s", ...)`. When both fields are read, a `starts.`
token calls `CustomMemProbe::start_bb_scope(bb_id, tid)` and an `ends.` token
`CustomMemProbe::end_bb_scope(tid)`. The instrumented program prints one marker
line per `printf` of the `OMPTR_*` macros.

`sscanf` reads the front of the buffer only, so a buffer of marker lines makes the
call of its first line and no other (`writeFunc_marker_line`). Written one line at a
time, as a line-buffered `stdout` writes them, the markers all reach the probe in
order; written together, all but the first are lost.
-/

namespace ParRP

namespace Sim

open Scanf Ruby

/-- A marker line of the `OMPTR_*` macros. -/
inductive Marker
  | starts (bbId : Int)
  | ends (bbId : Int)
  deriving DecidableEq, Repr

namespace Marker

def bbId : Marker → Int
  | .starts bbId => bbId
  | .ends bbId => bbId

/-- The token after the block number. -/
def point : Marker → String
  | .starts _ => "starts."
  | .ends _ => "ends."

/-- `printf("[OMPTR] BB %d starts.\n", omptr_bb_id)` and its `ends.` twin. -/
def line (m : Marker) : String := "[OMPTR] BB " ++ toString m.bbId ++ " " ++ m.point ++ "\n"

end Marker

/-- A call of `writeFunc` to the probe, for the writing thread. -/
inductive ScopeCall
  | startBbScope (bbId : Int)
  | endBbScope
  deriving DecidableEq, Repr

/-- The call a marker line stands for. -/
def Marker.call : Marker → ScopeCall
  | .starts bbId => .startBbScope bbId
  | .ends _ => .endBbScope

/-- The probe call of thread `threadId`; `end_bb_scope` computes the block's
execution cycles from the CPU's statistics, given here. -/
def ScopeCall.toProbeCall (threadId execCycles : Nat) : ScopeCall → ProbeCall
  | .startBbScope bbId => .startBbScope bbId threadId
  | .endBbScope => .endBbScope threadId execCycles

def omptrFormat : List Char := "[OMPTR] BB %d %s".toList

/-- The `@omptr` part of `writeFunc`: the scope call for a `write(2)` of `buf` that
returned `bytesWritten`. The copy of the buffer is a C string, which ends at its
first `NUL`. -/
def writeFunc (bytesWritten : Int) (buf : List Char) : Option ScopeCall :=
  if bytesWritten ≠ -1 then
    let stringBuffer := buf.takeWhile (· ≠ '\x00')
    let r := sscanf omptrFormat stringBuffer
    if r.1 = 2 then
      match r.2 with
      | [.int bbId, .str bbPoint] =>
          if bbPoint = "starts.".toList then some (.startBbScope bbId)
          else if bbPoint = "ends.".toList then some .endBbScope
          else none
      | _ => none
    else none
  else none

theorem directives_omptrFormat :
    directives omptrFormat =
      "[OMPTR]".toList.map .char ++ .space :: "BB".toList.map .char ++ [.space, .int, .space, .str] := by
  decide

theorem Marker.line_toList (m : Marker) :
    m.line.toList =
      "[OMPTR]".toList ++ ' ' :: "BB".toList ++ ' ' :: (toString m.bbId).toList ++ ' ' :: m.point.toList ++
        ['\n'] := by
  simp [line, String.toList_append]

theorem Marker.point_token (m : Marker) : m.point.toList ≠ [] ∧ ∀ x ∈ m.point.toList, isSpace x = false := by
  cases m <;> simp [Marker.point, isSpace]

/-- The scan of a buffer that starts with a marker line reads that line's fields,
whatever follows. -/
theorem scan_marker_line (m : Marker) (rest : List Char) :
    scan (directives omptrFormat) (m.line.toList ++ rest) = ([.int m.bbId, .str m.point.toList], false) := by
  obtain ⟨hne, htok⟩ := m.point_token
  obtain ⟨d, ds, hds, hd⟩ := toString_toList_eq_cons m.bbId
  have hblank : isSpace ' ' = true := by decide
  rw [directives_omptrFormat, Marker.line_toList]
  simp only [List.append_assoc, List.cons_append]
  -- `[OMPTR]`, a blank, `BB` and a blank
  have hnum : (toString m.bbId).toList ≠ [] := by rw [hds]; exact List.cons_ne_nil _ _
  have hnumHead : ∀ c ∈ (toString m.bbId).toList.head?, isSpace c = false := fun c hc => by
    simp only [hds, List.head?_cons, Option.mem_def, Option.some.injEq] at hc
    exact hc ▸ hd
  rw [scan_chars, scan_space_cons hblank, scan_space_append (by simp) (by simp [isSpace]), scan_chars,
    scan_space_cons hblank, scan_space_append hnum hnumHead]
  -- the number, a blank, the token and the newline
  rw [scan_int_toString _ _ hblank, scan_space_cons hblank,
    scan_space_append hne (fun c hc => htok c (List.mem_of_mem_head? hc)),
    scan_str_token hne htok _ (by decide : isSpace '\n' = true)]
  simp [scan]

theorem sscanf_marker_line (m : Marker) (rest : List Char) :
    sscanf omptrFormat (m.line.toList ++ rest) = (2, [.int m.bbId, .str m.point.toList]) := by
  simp [sscanf, scan_marker_line]

/-- A marker line is a C string: it has no `NUL`. -/
theorem Marker.ne_nul_of_mem_line {m : Marker} {c : Char} (h : c ∈ m.line.toList) : c ≠ '\x00' := by
  simp only [line, String.toList_append, List.mem_append] at h
  rcases h with (((h | h) | h) | h) | h
  · rintro rfl; simp at h
  · exact ne_nul_of_mem_toString h
  · rintro rfl; simp at h
  · rintro rfl; cases m <;> simp [point] at h
  · rintro rfl; simp at h

/-- `writeFunc` on a buffer that starts with a marker line makes that line's call,
and no other, whatever follows the line. -/
theorem writeFunc_marker_line {bytesWritten : Int} (hw : bytesWritten ≠ -1) (m : Marker) (rest : List Char) :
    writeFunc bytesWritten (m.line.toList ++ rest) = some m.call := by
  have hline : ∀ c ∈ m.line.toList, decide (c ≠ '\x00') = true := fun c hc => by
    simpa using m.ne_nul_of_mem_line hc
  simp only [writeFunc, hw, ne_eq, not_false_eq_true, if_true, List.takeWhile_append_of_pos hline,
    sscanf_marker_line]
  cases m <;> simp [Marker.call, Marker.point, Marker.bbId]

/-- A `write(2)` of marker lines makes the call of its first line and no other; when
each write carries one marker line, the calls are the markers' calls, in order. -/
theorem writeFunc_scope_calls {bytesWritten : Int} (hw : bytesWritten ≠ -1) :
    (∀ (m : Marker) (ms : List Marker),
      writeFunc bytesWritten ((m :: ms).flatMap fun m => m.line.toList) = some m.call) ∧
    ∀ ms : List Marker, ms.filterMap (fun m => writeFunc bytesWritten m.line.toList) = ms.map Marker.call := by
  refine ⟨fun m ms => ?_, fun ms => ?_⟩
  · rw [List.flatMap_cons]
    exact writeFunc_marker_line hw m _
  · induction ms with
    | nil => rfl
    | cons m ms ih =>
        have hline := writeFunc_marker_line hw m []
        rw [List.append_nil] at hline
        simp [hline, ih]

theorem writeFunc_scope_calls_of_written :
    (40 : Int) ≠ -1 ∧
      writeFunc 40 ([Marker.ends 0, .starts 1].flatMap fun m => m.line.toList) = some .endBbScope ∧
      [Marker.ends 0, .starts 1].filterMap (fun m => writeFunc 40 m.line.toList) =
        [.endBbScope, .startBbScope 1] :=
  ⟨by decide, (writeFunc_scope_calls (by decide)).1 _ _, (writeFunc_scope_calls (by decide)).2 _⟩

/-- `OMPTR_BEFORE_TASKWAIT` and `OMPTR_AFTER_TASKWAIT` of block `0` print `BB 0 ends.`
and `BB 1 starts.`; written in one `write(2)`, only `end_bb_scope` is called. Thread
`0` is then outside any block where its markers put it in block `1`, and the
`end_bb_scope` of its next `BB 1 ends.` fails. -/
theorem writeFunc_loses_buffered_marker :
    writeFunc 40 ([Marker.ends 0, .starts 1].flatMap fun m => m.line.toList) = some .endBbScope ∧
      (CustomMemProbe.init.run CustomMemProbe.normalConfig
          (.startBbScope 0 0 :: [Marker.ends 0, .starts 1].map fun m => m.call.toProbeCall 0 5)).map
        (·.bbIdMap 0) = .ok (some 1) ∧
      (CustomMemProbe.init.run CustomMemProbe.normalConfig
          [.startBbScope 0 0, ScopeCall.endBbScope.toProbeCall 0 5]).map (·.bbIdMap 0) = .ok (some (-1)) ∧
      CustomMemProbe.init.run CustomMemProbe.normalConfig
          [.startBbScope 0 0, ScopeCall.endBbScope.toProbeCall 0 5, (Marker.ends 1).call.toProbeCall 0 5] =
        .error "assert(it->second != -1)" := by
  refine ⟨?_, by decide, by decide, rfl⟩
  rw [List.flatMap_cons]
  exact writeFunc_marker_line (by decide) _ _

end Sim

end ParRP
