import BuildPlan.Xml.Fragment
import Mathlib.Data.List.Basic
import Mathlib.Data.List.Infix

/-! # How far markup is read

What a reader takes stands at the front of the text, and of what is left at most the first character
counts (`Local`), or none at all if the reader ends with a character that it knows (`Firm`). So what
is left may be changed, and the same is read. References are read like this, and a text can be
resolved exactly if one stands behind every ampersand (`resolveUpTo_isSome`). -/

namespace BuildPlan.Xml

variable {α β : Type} {p q : Char → Bool} {e : Char}

theorem Reader.bind_eq_some {m : Reader α} {f : α → Reader β} {s rest : List Char} {b : β} :
    (m >>= f) s = some (b, rest) ↔ ∃ a s', m s = some (a, s') ∧ f a s' = some (b, rest) := by
  show (m s).bind (fun p => f p.1 p.2) = _ ↔ _
  rw [Option.bind_eq_some_iff]
  exact ⟨fun ⟨p, hp, h⟩ => ⟨p.1, p.2, hp, h⟩, fun ⟨a, s', hp, h⟩ => ⟨(a, s'), hp, h⟩⟩

theorem Reader.discard_eq_some {m : Reader α} {s rest : List Char} {u : PUnit} :
    (discard m : Reader PUnit) s = some (u, rest) ↔ ∃ a, m s = some (a, rest) := by
  show (m >>= fun _ => pure u) s = _ ↔ _
  rw [Reader.bind_eq_some]
  constructor
  · rintro ⟨a, s', ha, h⟩
    cases h
    exact ⟨a, ha⟩
  · rintro ⟨a, ha⟩
    exact ⟨a, rest, ha, rfl⟩

/-! ### Readers that take what they look at -/

/-- What the reader takes has the property, and of what is left only the first character counts. -/
def Local (p : Char → Bool) (m : Reader α) : Prop :=
  ∀ ⦃s a rest⦄, m s = some (a, rest) → ∃ w, s = w ++ rest ∧ (∀ c ∈ w, p c = true) ∧
    ∀ t, t.head? = rest.head? → m (w ++ t) = some (a, t)

/-- The reader ends with the given character, what it takes before has the property, and what is
left does not count. -/
def Firm (e : Char) (p : Char → Bool) (m : Reader α) : Prop :=
  ∀ ⦃s a rest⦄, m s = some (a, rest) → ∃ w, s = w ++ e :: rest ∧ (∀ c ∈ w, p c = true) ∧
    ∀ t, m (w ++ e :: t) = some (a, t)

theorem Local.mono {m : Reader α} (h : Local p m) (hpq : ∀ c, p c = true → q c = true) :
    Local q m := by
  intro s a rest hm
  obtain ⟨w, hs, hw, hall⟩ := h hm
  exact ⟨w, hs, fun c hc => hpq c (hw c hc), hall⟩

theorem Local.bind {m : Reader α} {f : α → Reader β} (hm : Local p m) (hf : ∀ a, Local p (f a)) :
    Local p (m >>= f) := by
  intro s b rest h
  obtain ⟨a, s', ha, hb⟩ := Reader.bind_eq_some.mp h
  obtain ⟨w, rfl, hw, hall⟩ := hm ha
  obtain ⟨w', rfl, hw', hall'⟩ := hf a hb
  refine ⟨w ++ w', (List.append_assoc _ _ _).symm, List.forall_mem_append.mpr ⟨hw, hw'⟩,
    fun t ht => Reader.bind_eq_some.mpr ⟨a, w' ++ t, ?_, hall' t ht⟩⟩
  rw [List.append_assoc]
  exact hall _ (by rw [List.head?_append, List.head?_append, ht])

/-- What is read last decides where the reader ends. -/
theorem Local.bind_firm {m : Reader α} {f : α → Reader β} (hm : Local p m)
    (hf : ∀ a, Firm e p (f a)) : Firm e p (m >>= f) := by
  intro s b rest h
  obtain ⟨a, s', ha, hb⟩ := Reader.bind_eq_some.mp h
  obtain ⟨w, rfl, hw, hall⟩ := hm ha
  obtain ⟨w', rfl, hw', hall'⟩ := hf a hb
  refine ⟨w ++ w', (List.append_assoc _ _ _).symm, List.forall_mem_append.mpr ⟨hw, hw'⟩,
    fun t => Reader.bind_eq_some.mpr ⟨a, w' ++ e :: t, ?_, hall' t⟩⟩
  rw [List.append_assoc]
  exact hall _ (by rw [List.head?_append, List.head?_append, List.head?_cons, List.head?_cons])

/-- A result may be computed from what was read, or refused. -/
theorem Firm.bind_of_stays {m : Reader α} {f : α → Reader β} (hm : Firm e p m)
    (hf : ∀ a b s rest, f a s = some (b, rest) → rest = s ∧ ∀ t, f a t = some (b, t)) :
    Firm e p (m >>= f) := by
  intro s b rest h
  obtain ⟨a, s', ha, hb⟩ := Reader.bind_eq_some.mp h
  obtain ⟨w, rfl, hw, hall⟩ := hm ha
  obtain ⟨rfl, hall'⟩ := hf a b s' rest hb
  exact ⟨w, rfl, hw, fun t => Reader.bind_eq_some.mpr ⟨a, t, hall t, hall' t⟩⟩

theorem Firm.bind_pure {m : Reader α} (hm : Firm e p m) (f : α → β) :
    Firm e p (m >>= fun a => pure (f a)) := by
  refine hm.bind_of_stays fun a b s rest h => ?_
  cases h
  exact ⟨rfl, fun _ => rfl⟩

theorem local_pure (a : α) : Local p (pure a) := by
  intro s b rest h
  cases h
  exact ⟨[], rfl, List.forall_mem_nil _, fun _ _ => rfl⟩

theorem Local.discard {m : Reader α} (hm : Local p m) : Local p (discard m : Reader PUnit) :=
  hm.bind fun _ => local_pure ()

theorem Firm.discard {m : Reader α} (hm : Firm e p m) : Firm e p (discard m : Reader PUnit) :=
  hm.bind_pure fun _ => ()

theorem local_failure : Local p (failure : Reader α) := by
  intro _ _ _ h
  cases h

theorem local_lift (o : Option α) : Local p (liftM o : Reader α) := by
  intro s a rest h
  cases o with
  | none => cases h
  | some a =>
    cases h
    exact ⟨[], rfl, List.forall_mem_nil _, fun _ _ => rfl⟩

theorem local_ite {P : Prop} [Decidable P] {m m' : Reader α} (h : Local p m) (h' : Local p m') :
    Local p (if P then m else m') := by
  split
  · exact h
  · exact h'

/-! ### Runs of characters -/

/-- A character without the property stands behind all characters that have it. -/
theorem append_of_forall {w s x y : List Char} {c : Char} (hw : ∀ c ∈ w, p c = true)
    (hc : p c = false) (h : x ++ c :: y = w ++ s) : ∃ x', x = w ++ x' ∧ s = x' ++ c :: y := by
  rcases List.append_eq_append_iff.mp h with ⟨a, rfl, ha⟩ | ⟨a, rfl, ha⟩
  · cases a with
    | nil => exact ⟨[], by rw [List.append_nil, List.append_nil], ha.symm⟩
    | cons d a =>
      obtain ⟨rfl, -⟩ := List.cons.inj ha
      have hd := hw c (List.mem_append_right x List.mem_cons_self)
      rw [hc] at hd
      cases hd
  · exact ⟨a, rfl, ha⟩

/-- A run is read up to a character without the property. -/
theorem takeRun_eq_some {s a rest : List Char} :
    takeRun p s = some (a, rest) ↔
      s = a ++ rest ∧ (∀ c ∈ a, p c = true) ∧ ∀ c ∈ rest.head?, p c = false := by
  constructor
  · intro h
    cases h
    refine ⟨List.takeWhile_append_dropWhile.symm, List.all_eq_true.mp List.all_takeWhile,
      fun c hc => ?_⟩
    have hd := List.head?_dropWhile_not p s
    rw [Option.mem_def.mp hc] at hd
    exact hd
  · rintro ⟨rfl, ha, hr⟩
    have hrest : rest.takeWhile p = [] ∧ rest.dropWhile p = rest := by
      cases rest with
      | nil => exact ⟨rfl, rfl⟩
      | cons c rest =>
        have hc : ¬ p c = true := by simp [hr c rfl]
        exact ⟨List.takeWhile_cons_of_neg hc, List.dropWhile_cons_of_neg hc⟩
    rw [takeRun, List.takeWhile_append_of_pos ha, List.dropWhile_append_of_pos ha, hrest.1, hrest.2,
      List.append_nil]

theorem local_takeRun (p : Char → Bool) : Local p (takeRun p) := by
  intro s a rest h
  obtain ⟨rfl, ha, hr⟩ := takeRun_eq_some.mp h
  exact ⟨a, rfl, ha, fun t ht => takeRun_eq_some.mpr ⟨rfl, ha, ht ▸ hr⟩⟩

theorem local_skipSpaces : Local isSpace skipSpaces := by
  have h : skipSpaces = takeRun isSpace >>= fun _ => pure () := rfl
  rw [h]
  exact (local_takeRun isSpace).bind fun _ => local_pure ()

theorem eq_of_expect {s rest : List Char} {u : Unit} (h : expect e s = some (u, rest)) :
    s = e :: rest := by
  cases s with
  | nil => cases h
  | cons c s =>
    rw [expect] at h
    split at h
    · next he =>
      cases h
      rw [he]
    · cases h

theorem firm_expect (e : Char) : Firm e p (expect e) := by
  intro s u rest h
  rw [eq_of_expect h]
  exact ⟨[], rfl, List.forall_mem_nil _, fun t => if_pos rfl⟩

theorem local_name : Local isNameChar name := by
  refine (local_takeRun isNameChar).bind fun taken => ?_
  cases taken with
  | nil => exact local_failure
  | cons c _ => exact local_ite (local_pure _) local_failure

/-! ### Qualified names -/

/-- A character of a part of a qualified name. -/
def isPart (c : Char) : Bool := isNameChar c && c != ':'

/-- The name of these parts, if it is one. -/
def nameOf (found : QualifiedName) : Reader QualifiedName :=
  if beginsWell found.qualifier && beginsWell found.localName && !found.localName.isEmpty then
    pure found
  else failure

/-- The rest of a qualified name, behind its first part. -/
def behindPart (first : List Char) : Reader QualifiedName := fun s =>
  if s.head? = some ':' then
    (takeRun isPart >>= fun second => fun s =>
      if s.head? = some ':' then none else nameOf ⟨first, second⟩ s : Reader QualifiedName) s.tail
  else nameOf ⟨[], first⟩ s

theorem match_colon (f : List Char → α) (a : α) (s : List Char) :
    (match s with
      | ':' :: rest => f rest
      | _ => a) = if s.head? = some ':' then f s.tail else a := by
  split
  · rfl
  · next hs =>
    rw [if_neg]
    intro h
    obtain ⟨rest, he⟩ := List.head?_eq_some_iff.mp h
    exact hs rest he

theorem qualifiedName_eq : qualifiedName = takeRun isPart >>= behindPart := by
  funext s
  refine (congrFun (match_colon (α := Reader QualifiedName) _ _ (s.dropWhile isPart)) _).trans ?_
  show _ = behindPart (s.takeWhile isPart) (s.dropWhile isPart)
  unfold behindPart
  split
  · show (if ((s.dropWhile isPart).tail.dropWhile isPart).head? = some ':' then _ else _ :
      Reader QualifiedName) ((s.dropWhile isPart).tail.dropWhile isPart) = _
    show _ = if ((s.dropWhile isPart).tail.dropWhile isPart).head? = some ':' then none else _
    split <;> rfl
  · rfl

theorem local_nameOf (found : QualifiedName) : Local p (nameOf found) :=
  local_ite (local_pure _) local_failure

theorem isNameChar_of_isPart (c : Char) (h : isPart c = true) : isNameChar c = true :=
  (Bool.and_eq_true_iff.mp h).1

theorem local_behindPart (first : List Char) : Local isNameChar (behindPart first) := by
  have hsecond : Local isNameChar (takeRun isPart >>= fun second => fun s =>
      if s.head? = some ':' then none else nameOf ⟨first, second⟩ s : Reader QualifiedName) := by
    refine ((local_takeRun isPart).mono isNameChar_of_isPart).bind fun second s a rest h => ?_
    split at h
    · cases h
    · next hs =>
      obtain ⟨w, rfl, hw, hall⟩ := local_nameOf ⟨first, second⟩ h
      refine ⟨w, rfl, hw, fun t ht => ?_⟩
      rw [if_neg (by rwa [List.head?_append, ht, ← List.head?_append])]
      exact hall t ht
  intro s a rest h
  unfold behindPart at h ⊢
  split at h
  · next hs =>
    obtain ⟨s, rfl⟩ := List.head?_eq_some_iff.mp hs
    obtain ⟨w, he, hw, hall⟩ := hsecond h
    rw [List.tail_cons] at he
    subst he
    exact ⟨':' :: w, rfl, List.forall_mem_cons.mpr ⟨by decide, hw⟩, fun t ht => hall t ht⟩
  · next hs =>
    obtain ⟨w, rfl, hw, hall⟩ := local_nameOf ⟨[], first⟩ h
    refine ⟨w, rfl, hw, fun t ht => ?_⟩
    rw [if_neg (by rwa [List.head?_append, ht, ← List.head?_append])]
    exact hall t ht

theorem local_qualifiedName : Local isNameChar qualifiedName := by
  rw [qualifiedName_eq]
  exact ((local_takeRun isPart).mono isNameChar_of_isPart).bind local_behindPart

/-! ### References -/

/-- A character of a reference behind its ampersand, in front of its end. -/
def isReferenceChar (c : Char) : Bool := isNameChar c || c == '#'

theorem isReferenceChar_of_isNameChar (c : Char) (h : isNameChar c = true) :
    isReferenceChar c = true := by
  rw [isReferenceChar, h, Bool.true_or]

/-- A reference to a character by its number. -/
def numbered (base : Nat) (p : Char → Bool) : Reader Char := do
  let digits ← takeRun p
  let c ← liftM ((numeral base digits).bind charOfNumber)
  expect ';'
  return c

/-- A reference to a character by its name. -/
def named : Reader Char := do
  let n ← name
  let c ← liftM (predefined.lookup n)
  expect ';'
  return c

theorem reference_apply (s : List Char) : reference s =
    match s with
    | '#' :: 'x' :: r => numbered 16 (fun c => (digitValue 16 c).isSome) r
    | '#' :: r => numbered 10 Char.isDigit r
    | s => named s := by
  show (match s with
    | '#' :: 'x' :: rest => _
    | '#' :: rest => _
    | x => _ : Reader Char) s = _
  split <;> rfl

theorem isNameChar_of_isDigit (c : Char) (h : c.isDigit = true) : isNameChar c = true := by
  simp [isNameChar, h]

theorem isAlpha_of_le {c : Char} (h : 'a' ≤ c ∧ c ≤ 'f' ∨ 'A' ≤ c ∧ c ≤ 'F') :
    c.isAlpha = true := by
  have ha : 'a'.val.toNat = 97 := rfl
  have hf : 'f'.val.toNat = 102 := rfl
  have hz : 'z'.val.toNat = 122 := rfl
  have hA : 'A'.val.toNat = 65 := rfl
  have hF : 'F'.val.toNat = 70 := rfl
  have hZ : 'Z'.val.toNat = 90 := rfl
  simp only [Char.le_def, UInt32.le_iff_toNat_le] at h
  unfold Char.isAlpha Char.isLower Char.isUpper
  simp only [Bool.or_eq_true, Bool.and_eq_true, decide_eq_true_eq, ge_iff_le,
    UInt32.le_iff_toNat_le]
  omega

theorem isNameChar_of_digitValue (base : Nat) (c : Char) (h : (digitValue base c).isSome = true) :
    isNameChar c = true := by
  have hv : c.isDigit = true ∨ 'a' ≤ c ∧ c ≤ 'f' ∨ 'A' ≤ c ∧ c ≤ 'F' := by
    by_contra hn
    rw [not_or, not_or] at hn
    simp only [digitValue, Bool.and_eq_true, decide_eq_true_eq] at h
    rw [if_neg hn.1, if_neg hn.2.1, if_neg hn.2.2] at h
    cases h
  rcases hv with hd | ha
  · exact isNameChar_of_isDigit c hd
  · simp [isNameChar, isNameStart, isAlpha_of_le ha]

theorem firm_numbered {base : Nat} (hp : ∀ c, p c = true → isNameChar c = true) :
    Firm ';' isReferenceChar (numbered base p) := by
  refine Local.bind_firm ((local_takeRun p).mono fun c hc =>
    isReferenceChar_of_isNameChar c (hp c hc)) fun digits => ?_
  exact (local_lift _).bind_firm fun c => (firm_expect ';').bind_pure fun _ => c

theorem firm_named : Firm ';' isReferenceChar named := by
  refine Local.bind_firm (local_name.mono isReferenceChar_of_isNameChar) fun n => ?_
  exact (local_lift _).bind_firm fun c => (firm_expect ';').bind_pure fun _ => c

/-- A reference ends with a semicolon, and what stands behind it does not count. -/
theorem firm_reference : Firm ';' isReferenceChar reference := by
  -- a text that goes on with the semicolon begins like any other one that does
  have hhead : ∀ (w r t : List Char), (w ++ ';' :: t).head? = (w ++ ';' :: r).head? := by
    intro w r t
    rw [List.head?_append, List.head?_append, List.head?_cons, List.head?_cons]
  intro s c rest h
  rw [reference_apply] at h
  split at h
  · obtain ⟨w, rfl, hw, hall⟩ := firm_numbered (isNameChar_of_digitValue 16) h
    refine ⟨'#' :: 'x' :: w, rfl, ?_, fun t => ?_⟩
    · exact List.forall_mem_cons.mpr ⟨by decide, List.forall_mem_cons.mpr ⟨by decide, hw⟩⟩
    · rw [List.cons_append, List.cons_append, reference_apply]
      exact hall t
  · next r hx =>
    obtain ⟨w, rfl, hw, hall⟩ := firm_numbered isNameChar_of_isDigit h
    refine ⟨'#' :: w, rfl, List.forall_mem_cons.mpr ⟨by decide, hw⟩, fun t => ?_⟩
    rw [List.cons_append, reference_apply]
    split
    · next r' he =>
      have hd : (w ++ ';' :: rest).head? = some 'x' := by
        rw [hhead w t rest, (List.cons.inj he).2, List.head?_cons]
      obtain ⟨r'', hr''⟩ := List.head?_eq_some_iff.mp hd
      exact absurd hr'' (hx r'')
    · next r' he =>
      rw [← (List.cons.inj he).2]
      exact hall t
    · next hne => exact absurd rfl (hne _)
  · next hx hn =>
    obtain ⟨w, rfl, hw, hall⟩ := firm_named h
    refine ⟨w, rfl, hw, fun t => ?_⟩
    have hd : ∀ r, w ++ ';' :: t ≠ '#' :: r := by
      intro r he
      have hd : (w ++ ';' :: rest).head? = some '#' := by rw [hhead w t rest, he, List.head?_cons]
      obtain ⟨r', hr'⟩ := List.head?_eq_some_iff.mp hd
      exact hn r' hr'
    rw [reference_apply]
    split
    · next he => exact absurd he (hd _)
    · next he => exact absurd he (hd _)
    · exact hall t

/-! ### Texts that can be resolved -/

/-- Behind every ampersand stands a reference. -/
def Resolvable (s : List Char) : Prop := ∀ ⦃a b⦄, s = a ++ '&' :: b → (reference b).isSome = true

theorem resolvable_nil : Resolvable [] := by
  intro a b h
  cases a <;> cases h

theorem resolvable_cons {c : Char} (hc : c ≠ '&') {s : List Char} :
    Resolvable (c :: s) ↔ Resolvable s := by
  refine ⟨fun h a b hs => h (a := c :: a) (by rw [hs, List.cons_append]), fun h a b hs => ?_⟩
  cases a with
  | nil => exact absurd (List.cons.inj hs).1 hc
  | cons d a => exact h (List.cons.inj hs).2

/-- There is no ampersand in a reference, so the next one stands behind it. -/
theorem resolvable_ampersand {s : List Char} :
    Resolvable ('&' :: s) ↔ ∃ c rest, reference s = some (c, rest) ∧ Resolvable rest := by
  constructor
  · intro h
    obtain ⟨⟨c, rest⟩, hr⟩ := Option.isSome_iff_exists.mp (h (a := []) rfl)
    refine ⟨c, rest, hr, fun a b hs => ?_⟩
    obtain ⟨w, rfl, -, -⟩ := firm_reference hr
    exact h (a := '&' :: w ++ ';' :: a) (by simp [hs])
  · rintro ⟨c, rest, hr, h⟩ a b hs
    cases a with
    | nil =>
      rw [← (List.cons.inj hs).2, hr]
      rfl
    | cons d a =>
      obtain ⟨w, rfl, hw, -⟩ := firm_reference hr
      obtain ⟨x, rfl, hx⟩ := append_of_forall hw (by decide) (List.cons.inj hs).2.symm
      cases x with
      | nil => cases hx
      | cons _ x => exact h (List.cons.inj hx).2

/-- **A text is resolved exactly if a reference stands behind every ampersand.** -/
theorem resolveUpTo_isSome {plain : Char → Char} : ∀ {bound s : List Char},
    s.length ≤ bound.length → ((resolveUpTo plain bound s).isSome = true ↔ Resolvable s)
  | _, [], _ => by
    rw [resolveUpTo]
    exact ⟨fun _ => resolvable_nil, fun _ => rfl⟩
  | [], _ :: _, h => absurd h (by simp)
  | _ :: bound, c :: s, h => by
    have hs : s.length ≤ bound.length := by simpa using h
    by_cases hc : c = '&'
    · subst hc
      rw [resolvable_ampersand, resolveUpTo]
      show ((reference s).bind fun r => (resolveUpTo plain bound r.2).map (r.1 :: ·)).isSome = true ↔ _
      cases hr : reference s with
      | none => simp
      | some r =>
        obtain ⟨d, rest⟩ := r
        obtain ⟨w, rfl, -, -⟩ := firm_reference hr
        have hrest : rest.length ≤ bound.length := by
          rw [List.length_append, List.length_cons] at hs
          omega
        rw [Option.bind_some, Option.isSome_map, resolveUpTo_isSome hrest]
        exact ⟨fun h => ⟨d, rest, rfl, h⟩, fun ⟨_, _, he, h⟩ => by cases he; exact h⟩
    · rw [resolvable_cons hc, resolveUpTo]
      · rw [Option.isSome_map, resolveUpTo_isSome hs]
      · exact hc

/-! ### Line ends -/

theorem joinLineEnds_cons {c : Char} (hc : c ≠ '\r') (s : List Char) :
    joinLineEnds (c :: s) = c :: joinLineEnds s := by
  rw [joinLineEnds]
  exact fun r h => absurd h hc

theorem joinLineEnds_append : ∀ {w : List Char}, '\r' ∉ w → ∀ s : List Char,
    joinLineEnds (w ++ s) = w ++ joinLineEnds s
  | [], _, _ => rfl
  | c :: w, hw, s => by
    rw [List.mem_cons, not_or] at hw
    rw [List.cons_append, joinLineEnds_cons (Ne.symm hw.1), joinLineEnds_append hw.2,
      List.cons_append]

theorem eq_append_of_joinLineEnds : ∀ {w s r : List Char}, '\n' ∉ w → joinLineEnds s = w ++ r →
    ∃ r', s = w ++ r' ∧ joinLineEnds r' = r
  | [], s, _, _, h => ⟨s, rfl, h⟩
  | c :: w, s, r, hw, h => by
    rw [List.mem_cons, not_or] at hw
    unfold joinLineEnds at h
    split at h
    · exact absurd (List.cons.inj h).1 hw.1
    · obtain ⟨rfl, hs⟩ := List.cons.inj h
      obtain ⟨r', rfl, hr⟩ := eq_append_of_joinLineEnds hw.2 hs
      exact ⟨r', rfl, hr⟩
    · cases h

/-- The references of a text are not changed when line ends are joined. -/
theorem reference_joinLineEnds {s rest : List Char} {c : Char} :
    reference (joinLineEnds s) = some (c, rest) ↔
      ∃ r, reference s = some (c, r) ∧ rest = joinLineEnds r := by
  have hout : ∀ {w : List Char}, (∀ c ∈ w, isReferenceChar c = true) → ∀ d,
      isReferenceChar d = false → d ≠ ';' → d ∉ w ++ [';'] := by
    intro w hw d hd he hm
    rcases List.mem_append.mp hm with hm | hm
    · rw [hw d hm] at hd
      cases hd
    · exact he (List.mem_singleton.mp hm)
  constructor
  · intro h
    obtain ⟨w, he, hw, hall⟩ := firm_reference h
    rw [List.append_cons] at he
    obtain ⟨r, rfl, hr⟩ :=
      eq_append_of_joinLineEnds (hout hw '\n' (by decide) (by decide)) he
    rw [← List.append_cons]
    exact ⟨r, hall r, hr.symm⟩
  · rintro ⟨r, h, rfl⟩
    obtain ⟨w, rfl, hw, hall⟩ := firm_reference h
    rw [List.append_cons, joinLineEnds_append (hout hw '\r' (by decide) (by decide)),
      ← List.append_cons]
    exact hall _

theorem resolvable_joinLineEnds (s : List Char) : Resolvable (joinLineEnds s) ↔ Resolvable s := by
  induction hn : s.length using Nat.strong_induction_on generalizing s with
  | _ n ih =>
    subst hn
    unfold joinLineEnds
    split
    · next s =>
      rw [resolvable_cons (by decide), resolvable_cons (by decide), resolvable_cons (by decide)]
      exact ih _ (by simp only [List.length_cons]; omega) s rfl
    · next c s _ =>
      by_cases hc : c = '&'
      · subst hc
        simp only [resolvable_ampersand, reference_joinLineEnds]
        constructor
        · rintro ⟨d, _, ⟨r, hr, rfl⟩, h⟩
          obtain ⟨w, rfl, -, -⟩ := firm_reference hr
          have hlen : r.length < ('&' :: (w ++ ';' :: r)).length := by
            simp only [List.length_append, List.length_cons]
            omega
          exact ⟨d, r, hr, (ih _ hlen r rfl).mp h⟩
        · rintro ⟨d, r, hr, h⟩
          obtain ⟨w, rfl, -, -⟩ := firm_reference hr
          have hlen : r.length < ('&' :: (w ++ ';' :: r)).length := by
            simp only [List.length_append, List.length_cons]
            omega
          exact ⟨d, _, ⟨r, hr, rfl⟩, (ih _ hlen r rfl).mpr h⟩
      · rw [resolvable_cons hc, resolvable_cons hc]
        exact ih _ (by simp) s rfl
    · rfl

/-- The value of an attribute is there exactly if its text can be resolved. -/
theorem attributeValue_isSome (s : List Char) :
    (attributeValue s).isSome = true ↔ Resolvable s := by
  have hlen : ∀ s : List Char, (joinLineEnds s).length ≤ s.length := by
    intro s
    fun_induction joinLineEnds s with
    | case1 s ih =>
      simp only [List.length_cons]
      omega
    | case2 c s _ ih => simpa using ih
    | case3 => exact le_rfl
  rw [attributeValue, resolveUpTo_isSome (hlen s), resolvable_joinLineEnds]

theorem resolveText_isSome (s : List Char) : (resolveText s).isSome = true ↔ Resolvable s :=
  resolveUpTo_isSome le_rfl

end BuildPlan.Xml
