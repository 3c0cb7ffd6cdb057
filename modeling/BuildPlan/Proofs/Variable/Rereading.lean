import BuildPlan.Variable.Expansion
import Mathlib.Tactic.Linarith

/-! # Reading symbols back from their text

A deferring expansion writes symbols as a text, and a later expansion reads that text again. Writing
escapes every `$(` among the characters, one by one, while reading takes everything between an
escaped `$(` and the next closing parenthesis as it stands. So the symbols come back exactly if they
are *settled*: the parenthesis of every `$(` among the characters is closed before the next `$(`,
the next reference and the end.

* `read_write`: settled symbols are read back from their text.
* `evaluate_read_write_ne`: of symbols that are not settled, the text never comes to what the
  symbols come to, once the references have the value `x`. -/

namespace BuildPlan.Variable

/-! ### The values of symbols -/

/-- The characters of a symbol, if it has any under the bindings. -/
def Symbol.value? (b : Bindings) : Symbol → Option (List Char)
  | .char c => some [c]
  | .reference name => (b.get? (String.ofList name)).map String.toList
  | .unclosed => none

/-- The characters of symbols, if all of them have some. -/
def evaluate? (b : Bindings) : List Symbol → Option (List Char)
  | [] => some []
  | s :: ss => (s.value? b).bind fun v => (evaluate? b ss).map (v ++ ·)

@[simp] theorem evaluate?_nil (b : Bindings) : evaluate? b [] = some [] := rfl

theorem evaluate?_cons_eq_some {b : Bindings} {s : Symbol} {ss : List Symbol} {r : List Char} :
    evaluate? b (s :: ss) = some r ↔
      ∃ v u, s.value? b = some v ∧ evaluate? b ss = some u ∧ r = v ++ u := by
  simp only [evaluate?, Option.bind_eq_some_iff, Option.map_eq_some_iff]
  constructor
  · rintro ⟨v, hv, u, hu, rfl⟩
    exact ⟨v, u, hv, hu, rfl⟩
  · rintro ⟨v, u, hv, hu, rfl⟩
    exact ⟨v, hv, u, hu, rfl⟩

theorem evaluate?_append (b : Bindings) (ss ts : List Symbol) :
    evaluate? b (ss ++ ts) = (evaluate? b ss).bind fun r => (evaluate? b ts).map (r ++ ·) := by
  induction ss with
  | nil => simp
  | cons s ss ih =>
    rw [List.cons_append, evaluate?, ih, evaluate?]
    cases s.value? b with
    | none => rfl
    | some v =>
      cases evaluate? b ss with
      | none => rfl
      | some r => cases evaluate? b ts <;> simp

theorem evaluate?_append_eq_some {b : Bindings} {ss ts : List Symbol} {p r : List Char}
    (h : evaluate? b ss = some p) :
    evaluate? b (ss ++ ts) = some r ↔ ∃ t, evaluate? b ts = some t ∧ r = p ++ t := by
  rw [evaluate?_append, h, Option.bind_some, Option.map_eq_some_iff]
  exact ⟨fun ⟨t, ht, e⟩ => ⟨t, ht, e.symm⟩, fun ⟨t, ht, e⟩ => ⟨t, ht, e.symm⟩⟩

theorem evaluate?_char_cons_eq_some {b : Bindings} {c : Char} {ss : List Symbol} {r : List Char} :
    evaluate? b (.char c :: ss) = some r ↔ ∃ t, evaluate? b ss = some t ∧ r = c :: t :=
  have hc : evaluate? b [.char c] = some [c] := rfl
  evaluate?_append_eq_some hc

theorem evaluate?_chars (b : Bindings) (s : List Char) : evaluate? b (s.map .char) = some s := by
  induction s with
  | nil => rfl
  | cons c s ih => simp [evaluate?, ih, Symbol.value?]

theorem evaluate?_slashes (b : Bindings) (n : Nat) :
    evaluate? b (slashes n) = some (List.replicate n '\\') := by
  rw [← evaluate?_chars b (List.replicate n '\\'), slashes, List.map_replicate]

theorem evaluate?_slashes_char_eq_some {b : Bindings} {n : Nat} {c : Char} {ss : List Symbol}
    {r : List Char} :
    evaluate? b (slashes n ++ .char c :: ss) = some r ↔
      ∃ t, evaluate? b ss = some t ∧ r = List.replicate n '\\' ++ c :: t := by
  rw [evaluate?_append_eq_some (evaluate?_slashes b n)]
  constructor
  · rintro ⟨u, hu, rfl⟩
    obtain ⟨t, ht, rfl⟩ := evaluate?_char_cons_eq_some.mp hu
    exact ⟨t, ht, rfl⟩
  · rintro ⟨t, ht, rfl⟩
    exact ⟨c :: t, evaluate?_char_cons_eq_some.mpr ⟨t, ht, rfl⟩, rfl⟩

theorem evaluate?_eq_none_of_unclosed {b : Bindings} {ss : List Symbol} (h : .unclosed ∈ ss) :
    evaluate? b ss = none := by
  obtain ⟨ts, us, rfl⟩ := List.append_of_mem h
  rw [evaluate?_append]
  cases evaluate? b ts <;> simp [evaluate?, Symbol.value?]

/-! ### Readable and settled symbols -/

/-- Symbols as reading makes them from a text whose references all have an end. -/
structure Readable (ss : List Symbol) : Prop where
  closed : .unclosed ∉ ss
  names : ∀ name, .reference name ∈ ss → ')' ∉ name

theorem Readable.tail {s : Symbol} {ss : List Symbol} (h : Readable (s :: ss)) : Readable ss :=
  ⟨fun hm => h.closed (List.mem_cons_of_mem _ hm),
    fun name hm => h.names name (List.mem_cons_of_mem _ hm)⟩

/-- Holds if the parenthesis of every `$(` among the characters is closed before the next `$(`, the
next reference and the end. The flag says whether one is open already. -/
def isSettled : Bool → List Symbol → Bool
  | opened, [] => !opened
  | opened, .char '$' :: .char '(' :: ss => !opened && isSettled true ss
  | _, .char ')' :: ss => isSettled false ss
  | opened, .char _ :: ss => isSettled opened ss
  | opened, .reference _ :: ss => !opened && isSettled false ss
  | _, .unclosed :: _ => false

/-! ### One step of reading -/

theorem readFrom_text_slashes (n k : Nat) (s : List Char) :
    readFrom (.text n) (List.replicate k '\\' ++ s) = readFrom (.text (n + k)) s := by
  induction k generalizing n with
  | zero => rfl
  | succ k ih =>
    rw [List.replicate_succ, List.cons_append, readFrom, ih]
    congr 2
    omega

theorem readFrom_name_append (n : Nat) {acc t : List Char} (ht : ')' ∉ t) (s : List Char) :
    readFrom (.name n acc) (t ++ s) = readFrom (.name n (t.reverse ++ acc)) s := by
  induction t generalizing acc with
  | nil => rfl
  | cons c t ih =>
    simp only [List.mem_cons, not_or] at ht
    rw [List.cons_append, readFrom, ih ht.2]
    · simp
    · exact fun h => ht.1 h.symm

theorem readFrom_name_slashes (n k : Nat) (acc s : List Char) :
    readFrom (.name n acc) (List.replicate k '\\' ++ s) =
      readFrom (.name n (List.replicate k '\\' ++ acc)) s := by
  rw [readFrom_name_append n (by simp [List.mem_replicate]), List.reverse_replicate]

/-- A text that is written begins with a parenthesis only if its symbols do. -/
theorem writeFrom_ne_paren {n : Nat} {ss : List Symbol}
    (h : n = 0 → ∀ ts, ss ≠ .char '(' :: ts) (t : List Char) : writeFrom n ss ≠ '(' :: t := by
  fun_induction writeFrom n ss with
  | case1 n => cases n <;> simp [List.replicate_succ]
  | case2 n ss ih => exact ih (by omega)
  | case3 n ss ih => simp [List.replicate_succ]
  | case4 n c ss hc hd ih =>
    cases n with
    | zero =>
      intro ht
      simp only [List.replicate_zero, List.nil_append, List.cons.injEq] at ht
      exact h rfl ss (by rw [ht.1])
    | succ n => simp [List.replicate_succ]
  | case5 n name ss ih => cases n <;> simp [Nat.mul_succ, List.replicate_succ]
  | case6 n ss ih => cases n <;> simp [Nat.mul_succ, List.replicate_succ]

theorem writeFrom_char {c : Char} {ss : List Symbol} (hc : c ≠ '\\')
    (hd : ∀ ts, ss = .char '(' :: ts → c = '$' → False) (n : Nat) :
    writeFrom n (.char c :: ss) = List.replicate n '\\' ++ c :: writeFrom 0 ss := by
  rw [writeFrom]
  · exact hc
  · exact hd

/-! ### Reading what was written, symbol by symbol -/

/-- The symbols for which an escaped reference stands, as far as it has been read. -/
def escaped (n : Nat) (acc : List Char) : List Symbol :=
  slashes n ++ ('$' :: '(' :: acc.reverse).map .char

theorem escaped_slashes (n j : Nat) (acc : List Char) :
    escaped n (List.replicate j '\\' ++ acc) = escaped n acc ++ slashes j := by
  simp [escaped, slashes]

theorem escaped_cons (n : Nat) (c : Char) (acc : List Char) :
    escaped n (c :: acc) = escaped n acc ++ [.char c] := by
  simp [escaped]

theorem readReference_odd (n : Nat) (acc : List Char) :
    readReference (2 * n + 1) acc.reverse = escaped n acc ++ [.char ')'] := by
  rw [readReference, show (2 * n + 1) / 2 = n by omega, if_pos (by omega)]
  simp [escaped]

theorem readReference_even (n : Nat) (name : List Char) :
    readReference (2 * n) name = slashes n ++ [.reference name] := by
  rw [readReference, show 2 * n / 2 = n by omega, if_neg (by omega)]

theorem slashes_succ_append (n : Nat) (ss : List Symbol) :
    slashes (n + 1) ++ ss = slashes n ++ .char '\\' :: ss := by
  simp [slashes, List.replicate_succ']

section Reread
variable {c : Char} {ss : List Symbol} {j : Nat}

theorem reread_nil (j : Nat) : readFrom (.text 0) (writeFrom j []) = slashes j := by
  have h := readFrom_text_slashes 0 j []
  rw [List.append_nil] at h
  rw [writeFrom, h, Nat.zero_add, readFrom]

theorem reread_name_nil (n j : Nat) (acc : List Char) :
    readFrom (.name n acc) (writeFrom j []) = [.unclosed] := by
  have h := readFrom_name_slashes n j acc []
  rw [List.append_nil] at h
  rw [writeFrom, h, readFrom]

/-- A character that is read for itself. -/
theorem reread_char (hc : c ≠ '\\') (hd : ∀ ts, ss = .char '(' :: ts → c = '$' → False) :
    readFrom (.text 0) (writeFrom j (.char c :: ss)) =
      slashes j ++ .char c :: readFrom (.text 0) (writeFrom 0 ss) := by
  rw [writeFrom_char hc hd, readFrom_text_slashes, Nat.zero_add, readFrom]
  · exact hc
  · rintro s rfl hs
    exact writeFrom_ne_paren (fun _ ts hts => hd ts hts rfl) s hs

/-- A character inside of an escaped reference. -/
theorem reread_name_char (hc : c ≠ '\\') (hd : ∀ ts, ss = .char '(' :: ts → c = '$' → False)
    (hp : c ≠ ')') (n : Nat) (acc : List Char) :
    readFrom (.name n acc) (writeFrom j (.char c :: ss)) =
      readFrom (.name n (c :: (List.replicate j '\\' ++ acc))) (writeFrom 0 ss) := by
  rw [writeFrom_char hc hd, readFrom_name_slashes, readFrom]
  exact hp

/-- The end of an escaped reference. -/
theorem reread_name_close (n : Nat) (acc : List Char) :
    readFrom (.name (2 * n + 1) acc) (writeFrom j (.char ')' :: ss)) =
      escaped n acc ++ (slashes j ++ .char ')' :: readFrom (.text 0) (writeFrom 0 ss)) := by
  rw [writeFrom_char (by decide) (by simp), readFrom_name_slashes, readFrom, readReference_odd,
    escaped_slashes, List.append_assoc, List.append_assoc, List.singleton_append]

/-- Characters that would be read as the start of a reference. -/
theorem reread_open :
    readFrom (.text 0) (writeFrom j (.char '$' :: .char '(' :: ss)) =
      readFrom (.name (2 * j + 1) []) (writeFrom 0 ss) := by
  rw [writeFrom, readFrom_text_slashes, Nat.zero_add, readFrom]

/-- A reference that is kept. -/
theorem reread_reference {name : List Char} (hn : ')' ∉ name) :
    readFrom (.text 0) (writeFrom j (.reference name :: ss)) =
      slashes j ++ .reference name :: readFrom (.text 0) (writeFrom 0 ss) := by
  rw [writeFrom, List.append_assoc, readFrom_text_slashes, Nat.zero_add, List.cons_append,
    List.cons_append, readFrom, readFrom_name_append _ hn, List.append_nil, readFrom,
    List.reverse_reverse, readReference_even, List.append_assoc, List.singleton_append]

end Reread

/-! ### Settled symbols are read back -/

/-- Settled symbols are read back, outside of an escaped reference and inside of one. -/
theorem readFrom_writeFrom {opened : Bool} {ss : List Symbol} (hs : isSettled opened ss = true)
    (hr : Readable ss) :
    (opened = false → ∀ j, readFrom (.text 0) (writeFrom j ss) = slashes j ++ ss) ∧
      (opened = true → ∀ n acc j, readFrom (.name (2 * n + 1) acc) (writeFrom j ss) =
        escaped n acc ++ (slashes j ++ ss)) := by
  fun_induction isSettled opened ss with
  | case1 opened =>
    exact ⟨fun _ j => by rw [reread_nil, List.append_nil], fun h => by simp [h] at hs⟩
  | case2 opened ss ih =>
    obtain ⟨ho, hs⟩ := Bool.and_eq_true_iff.mp hs
    refine ⟨fun _ j => ?_, fun h => by simp [h] at ho⟩
    rw [reread_open, (ih hs hr.tail.tail).2 rfl j [] 0]
    simp [escaped, slashes]
  | case3 opened ss ih =>
    have hc := (ih hs hr.tail).1 rfl 0
    refine ⟨fun _ j => ?_, fun _ n acc j => ?_⟩
    · rw [reread_char (by decide) (by simp), hc]
      rfl
    · rw [reread_name_close, hc]
      rfl
  | case4 opened c ss hd hp ih =>
    by_cases hc : c = '\\'
    · -- a backslash is written with what follows it
      subst hc
      refine ⟨fun ho j => ?_, fun ho n acc j => ?_⟩
      · rw [writeFrom, (ih hs hr.tail).1 ho, slashes_succ_append]
      · rw [writeFrom, (ih hs hr.tail).2 ho, slashes_succ_append]
    · refine ⟨fun ho j => ?_, fun ho n acc j => ?_⟩
      · rw [reread_char hc hd, (ih hs hr.tail).1 ho]
        rfl
      · rw [reread_name_char hc hd hp, (ih hs hr.tail).2 ho, escaped_cons, escaped_slashes]
        simp [slashes]
  | case5 opened name ss ih =>
    obtain ⟨ho, hs⟩ := Bool.and_eq_true_iff.mp hs
    refine ⟨fun _ j => ?_, fun h => by simp [h] at ho⟩
    rw [reread_reference (hr.names name (by simp)), (ih hs hr.tail).1 rfl 0]
    rfl
  | case6 => simp at hs

/-- **Settled symbols are read back from their text.** -/
theorem read_write {ss : List Symbol} (hs : isSettled false ss = true) (hr : Readable ss) :
    read (write ss) = ss :=
  (readFrom_writeFrom hs hr).1 rfl 0

/-! ### Symbols that are not settled are lost -/

theorem evaluate?_escaped (b : Bindings) (n : Nat) (acc : List Char) :
    evaluate? b (escaped n acc) = some (List.replicate n '\\' ++ '$' :: '(' :: acc.reverse) :=
  (evaluate?_append_eq_some (evaluate?_slashes b n)).mpr ⟨_, evaluate?_chars b _, rfl⟩

/-- What begins as an escaped reference comes to a text that begins like it, if to any. -/
theorem evaluate?_readFrom_name {b : Bindings} (n : Nat) (acc : List Char) {s r : List Char}
    (h : evaluate? b (readFrom (.name (2 * n + 1) acc) s) = some r) :
    ∃ t, r = List.replicate n '\\' ++ '$' :: '(' :: acc.reverse ++ t := by
  induction s generalizing acc with
  | nil => simp [readFrom, evaluate?, Symbol.value?] at h
  | cons c s ih =>
    by_cases hc : c = ')'
    · rw [hc, readFrom, readReference_odd, List.append_assoc] at h
      obtain ⟨t, -, rfl⟩ := (evaluate?_append_eq_some (evaluate?_escaped b n acc)).mp h
      exact ⟨t, rfl⟩
    · rw [readFrom] at h
      · obtain ⟨t, rfl⟩ := ih (c :: acc) h
        exact ⟨c :: t, by simp⟩
      · exact hc

/-- Texts with a different number of backslashes in front differ. -/
theorem replicate_append_ne {a c : Char} (hc : c ≠ a) (m k : Nat) {s t : List Char}
    (ht : k = 0 → t.head? ≠ some c) :
    List.replicate (m + k) a ++ t ≠ List.replicate m a ++ c :: s := by
  intro h
  rw [← List.replicate_append_replicate, List.append_assoc, List.append_cancel_left_eq] at h
  cases k with
  | zero =>
    rw [List.replicate_zero, List.nil_append] at h
    exact ht rfl (by rw [h, List.head?_cons])
  | succ k =>
    rw [List.replicate_succ, List.cons_append] at h
    exact hc (List.cons.inj h).1.symm

/-- Outside of an escaped reference and inside of one, symbols that are not settled do not come to
the same text before and behind writing, if the references have the value `x`. -/
theorem evaluate?_readFrom_writeFrom_ne {b : Bindings} {opened : Bool} {ss : List Symbol}
    (hs : isSettled opened ss = false) (hr : Readable ss)
    (hb : ∀ name, .reference name ∈ ss → b.get? (String.ofList name) = some "x")
    {u r : List Char} (hu : evaluate? b ss = some u) :
    (opened = false → ∀ j, evaluate? b (readFrom (.text 0) (writeFrom j ss)) = some r →
        r ≠ List.replicate j '\\' ++ u) ∧
      (opened = true → ∀ n acc j,
        evaluate? b (readFrom (.name (2 * n + 1) acc) (writeFrom j ss)) = some r →
          r ≠ List.replicate n '\\' ++ '$' :: '(' :: acc.reverse ++
            (List.replicate j '\\' ++ u)) := by
  fun_induction isSettled opened ss generalizing u r with
  | case1 opened =>
    refine ⟨fun h => by simp [h] at hs, fun _ n acc j h => ?_⟩
    rw [reread_name_nil] at h
    simp [evaluate?, Symbol.value?] at h
  | case2 opened ss ih =>
    obtain ⟨w, hw, rfl⟩ := evaluate?_char_cons_eq_some.mp hu
    obtain ⟨v, hv, rfl⟩ := evaluate?_char_cons_eq_some.mp hw
    refine ⟨fun ho j h => ?_, fun _ n acc j h => ?_⟩
    · rw [ho, Bool.not_false, Bool.true_and] at hs
      rw [reread_open] at h
      simpa using (ih hs hr.tail.tail (fun name hm => hb name (by simp [hm])) hv).2 rfl j [] 0 h
    · -- the `$(` inside gets more backslashes than it had
      rw [writeFrom, readFrom_name_slashes] at h
      obtain ⟨t, rfl⟩ := evaluate?_readFrom_name n _ h
      have hne : List.replicate (j + (j + 1)) '\\' ++ t ≠
          List.replicate j '\\' ++ '$' :: '(' :: v :=
        replicate_append_ne (by decide) j (j + 1) (by simp)
      rw [show j + (j + 1) = 2 * j + 1 by omega] at hne
      simpa using hne
  | case3 opened ss ih =>
    obtain ⟨v, hv, rfl⟩ := evaluate?_char_cons_eq_some.mp hu
    have hc : ∀ t, evaluate? b (readFrom (.text 0) (writeFrom 0 ss)) = some t → t ≠ v := by
      intro t ht
      simpa using (ih hs hr.tail (fun name hm => hb name (by simp [hm])) hv).1 rfl 0 ht
    refine ⟨fun _ j h => ?_, fun _ n acc j h => ?_⟩
    · rw [reread_char (by decide) (by simp)] at h
      obtain ⟨t, ht, rfl⟩ := evaluate?_slashes_char_eq_some.mp h
      simpa using hc t ht
    · rw [reread_name_close] at h
      obtain ⟨w, hw, rfl⟩ := (evaluate?_append_eq_some (evaluate?_escaped b n acc)).mp h
      obtain ⟨t, ht, rfl⟩ := evaluate?_slashes_char_eq_some.mp hw
      simpa using hc t ht
  | case4 opened c ss hd hp ih =>
    obtain ⟨v, hv, rfl⟩ := evaluate?_char_cons_eq_some.mp hu
    have ih := fun {r} => ih hs hr.tail (fun name hm => hb name (by simp [hm])) hv (r := r)
    by_cases hc : c = '\\'
    · subst hc
      refine ⟨fun ho j h => ?_, fun ho n acc j h => ?_⟩
      · rw [writeFrom] at h
        simpa [List.replicate_succ'] using ih.1 ho (j + 1) h
      · rw [writeFrom] at h
        simpa [List.replicate_succ'] using ih.2 ho n acc (j + 1) h
    · refine ⟨fun ho j h => ?_, fun ho n acc j h => ?_⟩
      · rw [reread_char hc hd] at h
        obtain ⟨t, ht, rfl⟩ := evaluate?_slashes_char_eq_some.mp h
        simpa using ih.1 ho 0 ht
      · rw [reread_name_char hc hd hp] at h
        simpa using ih.2 ho n _ 0 h
  | case5 opened name ss ih =>
    have hx : (Symbol.reference name).value? b = some ['x'] := by
      rw [Symbol.value?, hb name (by simp)]
      rfl
    obtain ⟨w, v, hw, hv, rfl⟩ := evaluate?_cons_eq_some.mp hu
    obtain rfl : ['x'] = w := Option.some.inj (hx.symm.trans hw)
    refine ⟨fun ho j h => ?_, fun _ n acc j h => ?_⟩
    · rw [ho, Bool.not_false, Bool.true_and] at hs
      rw [reread_reference (hr.names name (by simp))] at h
      obtain ⟨r, hr', rfl⟩ := (evaluate?_append_eq_some (evaluate?_slashes b j)).mp h
      obtain ⟨w', t, hw', ht, rfl⟩ := evaluate?_cons_eq_some.mp hr'
      obtain rfl : ['x'] = w' := Option.some.inj (hx.symm.trans hw')
      simpa using (ih hs hr.tail (fun name hm => hb name (by simp [hm])) hv).1 rfl 0 ht
    · -- the reference is taken into the escaped one, where it has no value
      rw [writeFrom, List.append_assoc, readFrom_name_slashes, List.cons_append, readFrom] at h
      · obtain ⟨t, rfl⟩ := evaluate?_readFrom_name n _ h
        have hne : List.replicate (j + j) '\\' ++ '$' :: t ≠ List.replicate j '\\' ++ 'x' :: v :=
          replicate_append_ne (by decide) j j (by simp)
        rw [show j + j = 2 * j by omega] at hne
        simpa using hne
      · decide
  | case6 ss => exact absurd (by simp) hr.closed

/-- **Symbols that are not settled are not read back**: if the references have the value `x`, what
is read from the text does not come to what the symbols come to. -/
theorem evaluate?_read_write_ne {b : Bindings} {ss : List Symbol}
    (hs : isSettled false ss = false) (hr : Readable ss)
    (hb : ∀ name, .reference name ∈ ss → b.get? (String.ofList name) = some "x")
    {u : List Char} (hu : evaluate? b ss = some u) :
    evaluate? b (read (write ss)) ≠ some u := by
  intro h
  exact (evaluate?_readFrom_writeFrom_ne hs hr hb hu).1 rfl 0 h rfl

end BuildPlan.Variable
