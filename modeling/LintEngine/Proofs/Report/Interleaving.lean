import LintEngine.Proofs.Report.Selection

/-!
A report does not depend on how the files of a project were interleaved.

Whatever is done on the way to a report is done within one file: selecting the
findings of a file before or after it comes to the same. The last step, the
sort, tells files apart, and findings that it does not tell apart are of one
file. So a sorted list is known from the findings of each file in their order,
and these are not changed by mixing the files in another way.
-/

namespace LintEngine

namespace Sink

open Std

def isIn (p : Path) (f : Finding) : Bool := f.location.file == p

/-- The two lists hold the same findings of every file, in the same order. -/
def SameByFile (fs gs : List Finding) : Prop :=
  ∀ p, fs.filter (isIn p) = gs.filter (isIn p)

theorem isIn_iff {p : Path} {f : Finding} :
    isIn p f = true ↔ f.location.file.components = p.components :=
  Path.beq_iff

theorem isIn_own (f : Finding) : isIn f.location.file f = true :=
  isIn_iff.mpr rfl

theorem isIn_congr {f g : Finding}
    (h : f.location.file.components = g.location.file.components) (p : Path) :
    isIn p f = isIn p g := by
  rw [Bool.eq_iff_iff, isIn_iff, isIn_iff, h]

theorem isIn_of_samePlace (p : Path) (f g : Finding) (h : samePlace f g = true) :
    isIn p f = isIn p g :=
  isIn_congr (samePlace_iff.mp h).2.1 p

namespace SameByFile

theorem mem_of_mem {fs gs : List Finding} (h : SameByFile fs gs) {f : Finding} (hf : f ∈ fs) :
    f ∈ gs := by
  have hin : f ∈ fs.filter (isIn f.location.file) := List.mem_filter.mpr ⟨hf, isIn_own f⟩
  rw [h f.location.file] at hin
  exact (List.mem_filter.mp hin).1

theorem symm {fs gs : List Finding} (h : SameByFile fs gs) : SameByFile gs fs :=
  fun p => (h p).symm

/-- Two lists that begin with findings of one file begin with the same
finding. -/
theorem head_eq {f g : Finding} {fs gs : List Finding} (h : SameByFile (f :: fs) (g :: gs))
    (hfile : g.location.file.components = f.location.file.components) : f = g := by
  have hf : isIn f.location.file f = true := isIn_own f
  have hg : isIn f.location.file g = true := isIn_iff.mpr hfile
  have hlists := h f.location.file
  rw [List.filter_cons_of_pos hf, List.filter_cons_of_pos hg] at hlists
  exact (List.cons.inj hlists).1

theorem tail {f : Finding} {fs gs : List Finding} (h : SameByFile (f :: fs) (f :: gs)) :
    SameByFile fs gs := by
  intro p
  have hlists := h p
  by_cases hf : isIn p f = true
  · rw [List.filter_cons_of_pos hf, List.filter_cons_of_pos hf] at hlists
    exact (List.cons.inj hlists).2
  · rw [List.filter_cons_of_neg hf, List.filter_cons_of_neg hf] at hlists
    exact hlists

/-- Neighbours of different files can change places. -/
theorem swap (fs gs : List Finding) {f g : Finding}
    (h : f.location.file.components ≠ g.location.file.components) :
    SameByFile (fs ++ f :: g :: gs) (fs ++ g :: f :: gs) := by
  intro p
  have hnot : isIn p f = true → isIn p g = true → False := fun hf hg =>
    h ((isIn_iff.mp hf).trans (isIn_iff.mp hg).symm)
  rw [List.filter_append, List.filter_append]
  cases hf : isIn p f <;> cases hg : isIn p g <;> simp_all

/-- Every step on the way to a report stays within a file. -/
theorem finish {s s' : Sink} (h : SameByFile s.findings s'.findings) :
    SameByFile s.finish.findings s'.finish.findings := by
  intro p
  rw [filter_finish (isIn_of_samePlace p), filter_finish (isIn_of_samePlace p), h p]

end SameByFile

/-- Findings that the order of a report does not tell apart are of one file. -/
theorem components_eq_of_precedes {f g : Finding} (h : precedes f g = true)
    (h' : precedes g f = true) :
    f.location.file.components = g.location.file.components := by
  rcases precedes_iff.mp h with hlt | ⟨heq, -⟩
  · rcases precedes_iff.mp h' with hgt | ⟨heq, -⟩
    · have hswap : compare f.location.file g.location.file =
          (compare g.location.file f.location.file).swap := OrientedCmp.eq_swap
      rw [hswap, hgt] at hlt
      cases hlt
    · exact heq.symm
  · exact heq

/-- A list in the order of a report is known from the findings of each file. -/
theorem eq_of_sameByFile {fs gs : List Finding}
    (hfs : fs.Pairwise fun f g => precedes f g = true)
    (hgs : gs.Pairwise fun f g => precedes f g = true) (h : SameByFile fs gs) : fs = gs := by
  induction fs generalizing gs with
  | nil =>
      cases gs with
      | nil => rfl
      | cons g gs => cases h.symm.mem_of_mem List.mem_cons_self
  | cons f fs ih =>
      cases gs with
      | nil => cases h.mem_of_mem List.mem_cons_self
      | cons g gs =>
          obtain ⟨hf, hfs'⟩ := List.pairwise_cons.mp hfs
          obtain ⟨hg, hgs'⟩ := List.pairwise_cons.mp hgs
          -- each of the two heads stands somewhere in the other list
          have hfile : g.location.file.components = f.location.file.components := by
            rcases List.mem_cons.mp (h.mem_of_mem List.mem_cons_self) with heq | hmem
            · rw [heq]
            · rcases List.mem_cons.mp (h.symm.mem_of_mem List.mem_cons_self) with heq | hmem'
              · rw [heq]
              · exact components_eq_of_precedes (hg f hmem) (hf g hmem')
          obtain rfl := h.head_eq hfile
          exact congrArg (f :: ·) (ih hfs' hgs' h.tail)

/-- Findings that come in file by file give the same report in whatever way the
files are interleaved. -/
theorem finish_eq_of_sameByFile {fs gs : List Finding} (h : SameByFile fs gs) :
    (fs.foldl accept {}).finish.findings = (gs.foldl accept {}).finish.findings ∧
      (fs.foldl accept {}).finish.counts = (gs.foldl accept {}).finish.counts := by
  have hcame : SameByFile (fs.foldl accept {}).findings (gs.foldl accept {}).findings := by
    rw [findings_foldl_accept, findings_foldl_accept]
    exact h
  have hfindings := eq_of_sameByFile (pairwise_findings_finish _) (pairwise_findings_finish _)
    hcame.finish
  refine ⟨hfindings, ?_⟩
  rw [counts_finish_eq, counts_finish_eq, hfindings]

def missingCaseIn (file name : String) : Finding :=
  { missingCase name with location := { (default : Location) with file := ⟨file⟩ } }

/-- The second file is written in two ways, and its findings are of one group. -/
theorem finish_missingCasesIn :
    SameByFile [missingCaseIn "a/b" "A", missingCaseIn "a" "C", missingCaseIn "a//b" "B"]
        [missingCaseIn "a/b" "A", missingCaseIn "a//b" "B", missingCaseIn "a" "C"] ∧
      ([missingCaseIn "a/b" "A", missingCaseIn "a" "C",
          missingCaseIn "a//b" "B"].foldl accept {}).finish.findings =
        ([missingCaseIn "a/b" "A", missingCaseIn "a//b" "B",
          missingCaseIn "a" "C"].foldl accept {}).finish.findings := by
  have hfiles : (Path.mk "a").components ≠ (Path.mk "a//b").components := by decide +kernel
  have hsame := SameByFile.swap [missingCaseIn "a/b" "A"] [] (f := missingCaseIn "a" "C")
    (g := missingCaseIn "a//b" "B") hfiles
  exact ⟨hsame, (finish_eq_of_sameByFile hsame).1⟩

end Sink

end LintEngine
