import BuildPlan.Grammar.Value
import BuildPlan.Proofs.Grammar.Lexemes
import BuildPlan.Proofs.Text.Bytes
import Mathlib.Data.List.Forall2

/-! # Dedenting

A block of markup is kept without the indentation that its lines have in common. The indentation is
counted in bytes, and a blank may take more than one, so a line need not have a place between two
characters where it could be cut. Such a line loses all its leading blanks (`Outdented`).

* `visible_dedent`: nothing but blanks is lost.
* `dedent_indented`: more spaces in front of all lines with visible characters change nothing.
* `formatXml_dedents`: both, for the blocks that are accepted. -/

namespace BuildPlan.Text

open BuildPlan.Grammar

/-! ### Visible characters -/

/-- The characters of a text that are not blank. -/
def visible (s : List Char) : List Char := s.filter (!isBlank ·)

theorem visible_append (s t : List Char) : visible (s ++ t) = visible s ++ visible t :=
  List.filter_append s t

theorem visible_of_blank {s : List Char} (hs : isBlankText s = true) : visible s = [] :=
  List.filter_eq_nil_iff.mpr fun c hc => by simp [List.all_eq_true.mp hs c hc]

theorem visible_cons_blank {c : Char} (hc : isBlank c = true) (s : List Char) :
    visible (c :: s) = visible s :=
  List.filter_cons_of_neg (by simp [hc])

theorem visible_append_of_blank {u : List Char} (hu : isBlankText u = true) (s : List Char) :
    visible (u ++ s) = visible s := by
  rw [visible_append, visible_of_blank hu, List.nil_append]

theorem visible_trimStart (s : List Char) : visible (trimStart s) = visible s := by
  have h := visible_append_of_blank (u := s.takeWhile isBlank) List.all_takeWhile (s.dropWhile isBlank)
  rwa [List.takeWhile_append_dropWhile, eq_comm] at h

theorem visible_trim (s : List Char) : visible (trim s) = visible s := by
  obtain ⟨g, h, hg, hh, hs⟩ := exists_blanks_trim s
  have happend : visible (g ++ (trim s ++ h)) = visible (trim s) := by
    rw [visible_append_of_blank hg, visible_append, visible_of_blank hh, List.append_nil]
  rwa [← hs, eq_comm] at happend

theorem visible_intercalate (ls : List (List Char)) :
    visible (List.intercalate ['\n'] ls) = (ls.map visible).flatten := by
  induction ls with
  | nil => rfl
  | cons l ls ih =>
    cases ls with
    | nil => simp
    | cons l' ls =>
      rw [List.intercalate_cons_cons, List.append_assoc, visible_append, visible_append_of_blank rfl,
        ih]
      rfl

/-- The ends of the lines are blank. -/
theorem visible_lines (s : List Char) : ((lines s).map visible).flatten = visible s := by
  fun_induction lines s with
  | case1 => rfl
  | case2 s ih => rw [List.map_cons, List.flatten_cons, ih, visible_cons_blank rfl]; rfl
  | case3 s ih =>
    rw [List.map_cons, List.flatten_cons, ih, visible_cons_blank rfl, visible_cons_blank rfl]
    rfl
  | case4 c s _ _ hs ih =>
    rw [hs] at ih
    rw [show c :: s = [c] ++ s from rfl, visible_append, ← ih]
    rfl
  | case5 c s _ _ l ls hs ih =>
    rw [hs, List.map_cons, List.flatten_cons] at ih
    rw [show c :: s = [c] ++ s from rfl, visible_append, ← ih, List.map_cons, List.flatten_cons,
      show c :: l = [c] ++ l from rfl, visible_append, List.append_assoc]

/-! ### The ends of a trimmed text -/

theorem isBlank_head_trim {s : List Char} : ∀ c ∈ (trim s).head?, isBlank c = false := by
  intro c hc
  have hprefix : trim s <+: trimStart s := by
    unfold trim trimEnd
    rw [← List.reverse_suffix, List.reverse_reverse]
    exact List.dropWhile_suffix isBlank
  obtain ⟨t, ht⟩ := hprefix
  obtain ⟨w, hw⟩ := List.head?_eq_some_iff.mp hc
  have hhead : (trimStart s).head? = some c := by rw [← ht, hw]; rfl
  exact Rule.stops_dropWhile isBlank s c hhead

theorem isBlank_getLast_trim {s : List Char} : ∀ c ∈ (trim s).getLast?, isBlank c = false := by
  intro c hc
  unfold trim trimEnd at hc
  rw [List.getLast?_reverse] at hc
  exact Rule.stops_dropWhile isBlank _ c hc

/-! ### Cutting a line -/

/-- What is left of a line that is outdented by so many bytes. -/
inductive Outdented (width : Nat) : List Char → List Char → Prop
  /-- A blank line becomes empty. -/
  | blank {l : List Char} (hl : isBlankText l = true) : Outdented width l []
  /-- The line is cut between two characters, behind blanks of so many bytes. -/
  | cut {u t : List Char} (hu : isBlankText u = true) (hw : byteSize u = width)
      (ht : isBlankText t = false) : Outdented width (u ++ t) t
  /-- The place is inside of a character, and the line loses all its leading blanks. -/
  | trimmed {l : List Char} (hl : isBlankText l = false)
      (hw : ∀ u t, l = u ++ t → byteSize u ≠ width) : Outdented width l (trimStart l)

theorem Outdented.visible_eq {width : Nat} {l r : List Char} (h : Outdented width l r) :
    visible r = visible l := by
  cases h with
  | blank hl => exact (visible_of_blank hl).symm
  | cut hu => exact (visible_append_of_blank hu r).symm
  | trimmed => exact visible_trimStart l

/-- A line that is indented at least so far is outdented. -/
theorem outdented_outdent {width : Nat} {l : List Char}
    (h : isBlankText l = false → width ≤ indentation l) : Outdented width l (outdent width l) := by
  unfold outdent
  split
  · next hl => exact .blank hl
  · next hl =>
    rw [Bool.not_eq_true] at hl
    cases hd : dropBytes? l width with
    | none =>
      refine .trimmed hl fun u t hut hu => ?_
      rw [hut, ← hu, dropBytes?_byteSize] at hd
      cases hd
    | some t =>
      obtain ⟨u, rfl, hu⟩ := dropBytes?_eq_some_iff.mp hd
      -- the cut is within the leading blanks
      obtain ⟨v, hv, -⟩ := exists_of_byteSize_le
        (List.takeWhile_append_dropWhile (p := isBlank) (l := u ++ t)).symm (hu ▸ h hl)
      have hblank : isBlankText u = true := by
        have hall : ((u ++ t).takeWhile isBlank).all isBlank = true := List.all_takeWhile
        rw [hv, List.all_append, Bool.and_eq_true] at hall
        exact hall.1
      refine .cut hblank hu (Bool.eq_false_iff.mpr fun ht => ?_)
      rw [isBlankText_append hblank ht] at hl
      cases hl

/-- The common indentation is the least one of the lines that are not blank. -/
theorem commonIndentation_least {ls : List (List Char)} {l : List Char} (hl : l ∈ ls)
    (hv : isBlankText l = false) :
    (∃ m ∈ ls, isBlankText m = false ∧ indentation m = commonIndentation ls) ∧
      ∀ m ∈ ls, isBlankText m = false → commonIndentation ls ≤ indentation m := by
  have hmem : ∀ m ∈ ls, isBlankText m = false →
      indentation m ∈ (ls.filter (!isBlankText ·)).map indentation := fun m hm hmv =>
    List.mem_map_of_mem (List.mem_filter.mpr ⟨hm, by simp [hmv]⟩)
  obtain ⟨n, hn⟩ := Option.isSome_iff_exists.mp (List.isSome_min?_of_mem (hmem l hl hv))
  have hcommon : commonIndentation ls = n := by rw [commonIndentation, hn, Option.getD_some]
  obtain ⟨hin, hleast⟩ := List.min?_eq_some_iff.mp hn
  obtain ⟨m, hm, rfl⟩ := List.mem_map.mp hin
  obtain ⟨hm, hmv⟩ := List.mem_filter.mp hm
  rw [hcommon]
  exact ⟨⟨m, hm, by simpa using hmv, rfl⟩, fun m' hm' hv' => hleast _ (hmem m' hm' hv')⟩

theorem outdented_of_mem {ls : List (List Char)} {l : List Char} (hl : l ∈ ls) :
    Outdented (commonIndentation ls) l (outdent (commonIndentation ls) l) :=
  outdented_outdent fun hv => (commonIndentation_least hl hv).2 l hl hv

/-- A dedented text has the visible characters that it had. -/
theorem visible_dedent (s : List Char) : visible (dedent s) = visible s := by
  have hmap : ((lines s).map (outdent (commonIndentation (lines s)))).map visible =
      (lines s).map visible := by
    rw [List.map_map]
    exact List.map_congr_left fun l hl => (outdented_of_mem hl).visible_eq
  unfold dedent
  rw [visible_trim, visible_intercalate, hmap, visible_lines]

/-! ### Lines between line feeds -/

/-- The text without a carriage return at its end. -/
def chomp : List Char → List Char
  | [] => []
  | ['\r'] => []
  | c :: s => c :: chomp s

theorem chomp_append (u : List Char) {s : List Char} (hs : s ≠ []) :
    chomp (u ++ s) = u ++ chomp s := by
  induction u with
  | nil => rfl
  | cons c u ih =>
    rw [List.cons_append, chomp, ih]
    · rfl
    · intro _ hnil
      exact hs (List.append_eq_nil_iff.mp hnil).2

theorem isBlankText_chomp (s : List Char) : isBlankText (chomp s) = isBlankText s := by
  fun_induction chomp s with
  | case1 => rfl
  | case2 => rfl
  | case3 c s _ ih =>
    unfold isBlankText at ih ⊢
    rw [List.all_cons, List.all_cons, ih]

theorem lines_append_lineFeed {l : List Char} (hl : '\n' ∉ l) (s : List Char) :
    lines (l ++ '\n' :: s) = chomp l :: lines s := by
  fun_induction chomp l with
  | case1 => rfl
  | case2 => rfl
  | case3 c l hc ih =>
    rw [List.mem_cons, not_or] at hl
    rw [List.cons_append, lines, ih hl.2]
    · exact fun h => hl.1 h.symm
    · intro t hr ht
      cases l with
      | nil => exact hc hr rfl
      | cons d l =>
        obtain rfl : d = '\n' := (List.cons.inj ht).1
        exact hl.2 List.mem_cons_self

theorem lines_of_notMem {l : List Char} (hl : '\n' ∉ l) :
    lines l = if l = [] then [] else [l] := by
  induction l with
  | nil => rfl
  | cons c l ih =>
    rw [List.mem_cons, not_or] at hl
    rw [lines, ih hl.2, if_neg (List.cons_ne_nil c l)]
    · by_cases h : l = [] <;> simp [h]
    · exact fun h => hl.1 h.symm
    · rintro t - rfl
      exact hl.2 List.mem_cons_self

/-! ### More indentation -/

/-- The line behind so many spaces, unless it is blank. -/
def shift (k : Nat) (l : List Char) : List Char :=
  if isBlankText l then l else List.replicate k ' ' ++ l

/-- The text with so many spaces in front of every line that is not blank. -/
def indented (k : Nat) (s : List Char) : List Char :=
  List.intercalate ['\n'] ((s.splitOn '\n').map (shift k))

theorem isBlankText_replicate (k : Nat) : isBlankText (List.replicate k ' ') = true :=
  List.all_eq_true.mpr fun c hc => by rw [List.eq_of_mem_replicate hc]; rfl

theorem byteSize_replicate (k : Nat) : byteSize (List.replicate k ' ') = k := by
  induction k with
  | zero => rfl
  | succ k ih => rw [List.replicate_succ, byteSize_cons, ih, Nat.add_comm]; rfl

theorem ne_nil_of_visible {l : List Char} (hl : isBlankText l = false) : l ≠ [] := by
  rintro rfl
  cases hl

theorem shift_of_visible (k : Nat) {l : List Char} (hl : isBlankText l = false) :
    shift k l = List.replicate k ' ' ++ l := if_neg (by simp [hl])

theorem shift_of_blank (k : Nat) {l : List Char} (hl : isBlankText l = true) : shift k l = l :=
  if_pos hl

theorem isBlankText_shift (k : Nat) (l : List Char) : isBlankText (shift k l) = isBlankText l := by
  cases hl : isBlankText l with
  | true => rw [shift_of_blank k hl, hl]
  | false =>
    have hspaces := isBlankText_replicate k
    unfold isBlankText at hl hspaces
    rw [shift_of_visible k hl, isBlankText, List.all_append, hspaces, hl]
    rfl

theorem shift_eq_nil_iff {k : Nat} {l : List Char} : shift k l = [] ↔ l = [] := by
  cases hl : isBlankText l with
  | true => rw [shift_of_blank k hl]
  | false =>
    simp [shift_of_visible k hl, ne_nil_of_visible hl]

theorem notMem_shift {k : Nat} {l : List Char} (hl : '\n' ∉ l) : '\n' ∉ shift k l := by
  unfold shift
  split
  · exact hl
  · simp [hl, List.mem_replicate]

theorem chomp_shift (k : Nat) (l : List Char) : chomp (shift k l) = shift k (chomp l) := by
  cases hl : isBlankText l with
  | true => rw [shift_of_blank k hl, shift_of_blank k (by rwa [isBlankText_chomp])]
  | false =>
    rw [shift_of_visible k hl, shift_of_visible k (by rwa [isBlankText_chomp]),
      chomp_append _ (ne_nil_of_visible hl)]

/-- The lines of an indented text are the indented lines of the text. -/
theorem lines_intercalate_shift (k : Nat) : ∀ {ls : List (List Char)}, (∀ l ∈ ls, '\n' ∉ l) →
    lines (List.intercalate ['\n'] (ls.map (shift k))) =
      (lines (List.intercalate ['\n'] ls)).map (shift k)
  | [], _ => rfl
  | [l], hls => by
    have hl := hls l List.mem_cons_self
    rw [List.map_singleton, List.intercalate_singleton, List.intercalate_singleton,
      lines_of_notMem (notMem_shift hl), lines_of_notMem hl]
    by_cases h : l = [] <;> simp [h, shift_eq_nil_iff]
  | l :: l' :: ls, hls => by
    have hl := hls l List.mem_cons_self
    have ih := lines_intercalate_shift k fun m hm => hls m (List.mem_cons_of_mem l hm)
    rw [List.map_cons] at ih
    rw [List.map_cons, List.map_cons, List.intercalate_cons_cons, List.intercalate_cons_cons,
      List.append_assoc, List.append_assoc, List.singleton_append, List.singleton_append,
      lines_append_lineFeed (notMem_shift hl), lines_append_lineFeed hl, ih, chomp_shift,
      List.map_cons]

theorem notMem_of_mem_splitOn {l s : List Char} (hl : l ∈ s.splitOn '\n') : '\n' ∉ l := by
  induction s generalizing l with
  | nil =>
    rw [List.splitOn_nil, List.mem_singleton] at hl
    rw [hl]
    exact List.not_mem_nil
  | cons c s ih =>
    rw [List.splitOn_cons_eq_if_modifyHead] at hl
    obtain ⟨m, ms, hs⟩ := List.exists_cons_of_ne_nil (List.splitOn_ne_nil '\n' s)
    split at hl
    · next hc =>
      rcases List.mem_cons.mp hl with rfl | hl
      · exact List.not_mem_nil
      · exact ih hl
    · next hc =>
      rw [hs] at ih hl
      rcases List.mem_cons.mp hl with rfl | hl
      · have hm := ih List.mem_cons_self
        rw [List.mem_cons, not_or]
        exact ⟨fun h => hc (beq_iff_eq.mpr h.symm), hm⟩
      · exact ih (List.mem_cons_of_mem m hl)

theorem lines_indented (k : Nat) (s : List Char) :
    lines (indented k s) = (lines s).map (shift k) := by
  rw [indented, lines_intercalate_shift k fun _ => notMem_of_mem_splitOn, List.intercalate_splitOn]

theorem indentation_shift (k : Nat) {l : List Char} (hl : isBlankText l = false) :
    indentation (shift k l) = k + indentation l := by
  have hspaces : ∀ c ∈ List.replicate k ' ', isBlank c = true :=
    List.all_eq_true.mp (isBlankText_replicate k)
  unfold indentation
  rw [shift_of_visible k hl, List.takeWhile_append_of_pos hspaces, byteSize_append,
    byteSize_replicate]

theorem outdent_shift (k width : Nat) (l : List Char) :
    outdent (k + width) (shift k l) = outdent width l := by
  unfold outdent
  rw [isBlankText_shift]
  split
  · rfl
  · next hl =>
    rw [Bool.not_eq_true] at hl
    have hdrop := dropBytes?_append (List.replicate k ' ') l width
    rw [byteSize_replicate] at hdrop
    rw [shift_of_visible k hl, hdrop, trimStart, dropWhile_blanks (isBlankText_replicate k),
      trimStart]

theorem commonIndentation_shift (k : Nat) {ls : List (List Char)} {l : List Char} (hl : l ∈ ls)
    (hv : isBlankText l = false) :
    commonIndentation (ls.map (shift k)) = k + commonIndentation ls := by
  obtain ⟨⟨m, hm, hmv, hmi⟩, hle⟩ := commonIndentation_least hl hv
  obtain ⟨⟨r, hr, hrv, hri⟩, hle'⟩ := commonIndentation_least
    (List.mem_map_of_mem hl) ((isBlankText_shift k l).trans hv)
  obtain ⟨n, hn, rfl⟩ := List.mem_map.mp hr
  rw [isBlankText_shift] at hrv
  -- the line with the least indentation has it before and after
  have hafter := hle' (shift k m) (List.mem_map_of_mem hm) ((isBlankText_shift k m).trans hmv)
  have hbefore := hle n hn hrv
  rw [indentation_shift k hmv] at hafter
  rw [indentation_shift k hrv] at hri
  omega

/-- More spaces in front of all lines that are not blank are taken away with the others. -/
theorem dedent_indented (k : Nat) (s : List Char) : dedent (indented k s) = dedent s := by
  have hlines : ((lines s).map (shift k)).map (outdent (commonIndentation ((lines s).map (shift k)))) =
      (lines s).map (outdent (commonIndentation (lines s))) := by
    rw [List.map_map]
    refine List.map_congr_left fun l hl => ?_
    cases hv : isBlankText l with
    | true => simp [outdent, isBlankText_shift, hv]
    | false => rw [Function.comp_apply, commonIndentation_shift k hl hv, outdent_shift]
  unfold dedent
  rw [lines_indented]
  exact congrArg (fun ls => trim (List.intercalate ['\n'] ls)) hlines

/-! ### Blocks of markup -/

/-- **Dedenting a block of markup removes nothing but indentation.** Every line is cut between two
characters, or loses its leading blanks. A block that is accepted keeps its visible characters in their
order and has one of them at either end. With any number of spaces in front of all lines that are not
blank the same blocks are accepted, and with the same result. -/
theorem formatXml_dedents (raw : List Char) :
    (∃ rests, List.Forall₂ (Outdented (commonIndentation (lines raw))) (lines raw) rests ∧
      dedent raw = trim (List.intercalate ['\n'] rests)) ∧
    (∀ text, formatXml raw = some text →
      visible text = visible raw ∧ (∀ c ∈ text.head?, isBlank c = false) ∧
        ∀ c ∈ text.getLast?, isBlank c = false) ∧
    ∀ k, formatXml (indented k raw) = formatXml raw := by
  refine ⟨⟨(lines raw).map (outdent (commonIndentation (lines raw))), ?_, rfl⟩, fun text h => ?_,
    fun k => ?_⟩
  · exact List.forall₂_map_right_iff.mpr (List.forall₂_same.mpr fun _ hl => outdented_of_mem hl)
  · simp only [formatXml] at h
    split at h
    · cases h
      exact ⟨visible_dedent raw, isBlank_head_trim, isBlank_getLast_trim⟩
    · cases h
  · simp only [formatXml]
    rw [dedent_indented]

/-- A block with blanks of several sizes, a blank line and both kinds of line ends. Two bytes of
indentation are within the wide space in front of two lines. -/
def mixedBlanks : List Char :=
  "\t <a>\r\n\u2003<b/>\r\n \u00a0\n\u2003 x\n   y</a>\n".toList

theorem formatXml_dedents_mixedBlanks :
    formatXml mixedBlanks = some "<a>\n<b/>\n\nx\n y</a>".toList ∧
    visible "<a>\n<b/>\n\nx\n y</a>".toList = visible mixedBlanks ∧
    indented 3 mixedBlanks =
      "   \t <a>\r\n   \u2003<b/>\r\n \u00a0\n   \u2003 x\n      y</a>\n".toList ∧
    formatXml (indented 3 mixedBlanks) = some "<a>\n<b/>\n\nx\n y</a>".toList := by
  have hread : formatXml mixedBlanks = some "<a>\n<b/>\n\nx\n y</a>".toList := by decide +kernel
  obtain ⟨-, hkept, hmore⟩ := formatXml_dedents mixedBlanks
  exact ⟨hread, (hkept _ hread).1, by decide +kernel, (hmore 3).trans hread⟩

end BuildPlan.Text
