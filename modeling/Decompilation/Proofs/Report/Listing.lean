import Decompilation.Proofs.Json.Printer
import Decompilation.Report.Listing

/-!
# Blocks of data

No line of a printed value looks like a fence, so the fences of a block are its first and its last line
and a reader who stops at the next fence has read the value as it was printed
(`dataBlock_keeps_fences`).
-/

namespace Decompilation.Report

open Json (Value Row rows_print eq_newline_of_glyphs)
open Text

/-- Whether a line looks like a fence. -/
def isFence (l : List Char) : Bool := l.head? == some '\x60'

/-- What a reader takes for the data in a block: the lines behind the first one up to the next that looks
like a fence. -/
def fenced (block : List Char) : List Char :=
  joinWith ['\n'] ((splitOn '\n' block).tail.takeWhile fun l => !isFence l)

theorem isFence_of_row {l : List Char} (h : Row l) : isFence l = false :=
  beq_eq_false_iff_ne.2 h.head

theorem toList_dataBlock (v : Value) : (dataBlock v).toList =
    fenceOpen.toList ++ '\n' :: ((Json.print 2 v).toList ++ '\n' :: fenceClose.toList) := by
  have hnewline : "\n".toList = ['\n'] := by decide
  simp only [dataBlock, String.toList_append, hnewline, List.append_assoc, List.cons_append,
    List.nil_append]

theorem splitOn_dataBlock (v : Value) : splitOn '\n' (dataBlock v).toList =
    fenceOpen.toList :: (splitOn '\n' (Json.print 2 v).toList ++ [fenceClose.toList]) := by
  have hopen : '\n' ∉ fenceOpen.toList := by decide
  have hclose : '\n' ∉ fenceClose.toList := by decide
  rw [toList_dataBlock, splitOn_append_cons hopen, splitOn_append_sep, splitOn_of_not_mem hclose]

/-- Newlines are the only line separators in a block. -/
theorem isBreak_dataBlock (v : Value) : ∀ c ∈ (dataBlock v).toList, isBreak c = true → c = '\n' := by
  have hopen := eq_newline_of_glyphs (l := fenceOpen.toList) (List.all_eq_true.1 rfl)
  have hclose := eq_newline_of_glyphs (l := fenceClose.toList) (List.all_eq_true.1 rfl)
  have hprinted := (rows_print 2 v).eq_newline_of_isBreak
  have hbehind := List.forall_mem_append.2 ⟨hprinted, List.forall_mem_cons.2 ⟨fun _ => rfl, hclose⟩⟩
  rw [toList_dataBlock]
  exact List.forall_mem_append.2 ⟨hopen, List.forall_mem_cons.2 ⟨fun _ => rfl, hbehind⟩⟩

theorem lines_dataBlock (v : Value) : lines (dataBlock v).toList = splitOn '\n' (dataBlock v).toList := by
  have hlast : (splitOn '\n' (dataBlock v).toList).getLast? = some fenceClose.toList := by
    rw [splitOn_dataBlock, ← List.cons_append, List.getLast?_concat]
  rcases splitOn_newline_cases (isBreak_dataBlock v) with hsame | hmore
  · exact hsame.symm
  · rw [hmore, List.getLast?_concat] at hlast
    cases hlast

/-- **What a value holds cannot break the fences around it.** A block has two lines that start like a
fence, its first and its last. Between them stand the lines of the printed value, so the value is read as
it was printed. Whichever line separators are taken to end lines, the lines are the same. -/
theorem dataBlock_keeps_fences (v : Value) :
    let block := (dataBlock v).toList
    let printed := (Json.print 2 v).toList
    splitOn '\n' block = "```json".toList :: (splitOn '\n' printed ++ ["```".toList]) ∧
      (splitOn '\n' block).filter isFence = ["```json".toList, "```".toList] ∧
      fenced block = printed ∧ lines block = splitOn '\n' block := by
  intro block printed
  have hcut : splitOn '\n' block = fenceOpen.toList :: (splitOn '\n' printed ++ [fenceClose.toList]) :=
    splitOn_dataBlock v
  have hinner : ∀ l ∈ splitOn '\n' printed, isFence l = false := fun l hl =>
    isFence_of_row ((rows_print 2 v).of_mem_splitOn l hl)
  refine ⟨hcut, ?_, ?_, lines_dataBlock v⟩
  · have hnone : (splitOn '\n' printed).filter isFence = [] :=
      List.filter_eq_nil_iff.2 fun l hl => by simp [hinner l hl]
    rw [hcut, List.filter_cons, List.filter_append, hnone]
    rfl
  · have hread : (splitOn '\n' printed ++ [fenceClose.toList]).takeWhile (fun l => !isFence l) =
        splitOn '\n' printed := by
      rw [List.takeWhile_append_of_pos fun l hl => by simp [hinner l hl]]
      simp [isFence, fenceClose]
    rw [fenced, hcut, List.tail_cons, hread, joinWith_splitOn]

end Decompilation.Report
