import BuildPlan.Pattern.Match
import Mathlib.Data.List.TakeWhile

/-! # What globs match

The parts of a glob are matched with the parts of a text, one after another: `Glob.Matches` says so
without going through the text, and a glob is matched from the end of the text in the same sense
(`Glob.tokensMatch_iff`). As a pattern, a glob with a separator is matched with the whole path
(`Pattern.isMatch_glob_iff`), except if its only separator is that of a leading `./`, which is left out
before separators are looked for: then the last name of a path is enough
(`Pattern.leadingDot_matches_lastName`). -/

namespace BuildPlan

namespace Glob

/-- Parts of a glob match a text: a star any characters, and two stars any characters up to a slash or
up to the end of the text, or none. -/
inductive Matches : List Token → List Char → Prop
  | nil : Matches [] []
  | char (c : Char) {ts : List Token} {s : List Char} (h : Matches ts s) :
      Matches (.char c :: ts) (c :: s)
  | any (x : Char) {ts : List Token} {s : List Char} (h : Matches ts s) : Matches (.any :: ts) (x :: s)
  | many (u : List Char) {ts : List Token} {s : List Char} (h : Matches ts s) :
      Matches (.many :: ts) (u ++ s)
  | directories {u : List Char} {ts : List Token} {s : List Char}
      (hu : u = [] ∨ u.getLast? = some '/' ∨ s = []) (h : Matches ts s) :
      Matches (.directories :: ts) (u ++ s)
  | within {set : List Specifier} {x : Char} {ts : List Token} {s : List Char}
      (hx : set.any (·.admits x) = true) (h : Matches ts s) : Matches (.within set :: ts) (x :: s)
  | except {set : List Specifier} {x : Char} {ts : List Token} {s : List Char}
      (hx : set.any (·.admits x) = false) (h : Matches ts s) : Matches (.except set :: ts) (x :: s)

/-! ### Answers for the rests of a text -/

/-- The list says of each rest of the text, from the whole text to the empty one, whether it is as
described. -/
inductive Answers (P : List Char → Prop) : List Char → List Bool → Prop
  | nil {b : Bool} (h : b = true ↔ P []) : Answers P [] [b]
  | cons {c : Char} {s : List Char} {b : Bool} {bs : List Bool} (h : b = true ↔ P (c :: s))
      (hs : Answers P s bs) : Answers P (c :: s) (b :: bs)

variable {P Q : List Char → Prop} {s : List Char} {bs bs' : List Bool}

theorem Answers.headD (h : Answers P s bs) : bs.headD false = true ↔ P s := by
  cases h with
  | nil h => exact h
  | cons h _ => exact h

theorem Answers.imp (h : Answers P s bs) (hPQ : ∀ t, P t ↔ Q t) : Answers Q s bs := by
  induction h with
  | nil h => exact .nil (h.trans (hPQ _))
  | cons h _ ih => exact .cons (h.trans (hPQ _)) ih

theorem Answers.zipWith_or (h : Answers P s bs) (h' : Answers Q s bs') :
    Answers (fun t => P t ∨ Q t) s (List.zipWith or bs bs') := by
  induction h generalizing bs' with
  | nil h =>
    cases h' with
    | nil h' => exact .nil (by rw [Bool.or_eq_true, h, h'])
  | cons h _ ih =>
    cases h' with
    | cons h' hs' => exact .cons (by rw [Bool.or_eq_true, h, h']) (ih hs')

theorem answers_end : ∀ s : List Char, Answers (· = []) s (s.map (fun _ => false) ++ [true])
  | [] => .nil (by simp)
  | _ :: s => .cons (by simp) (answers_end s)

theorem Answers.oneThen {first : Char → Bool} (h : Answers P s bs) :
    Answers (fun t => ∃ x u, t = x :: u ∧ first x = true ∧ P u) s (oneThen first s bs) := by
  induction h with
  | nil _ => exact .nil (by simp)
  | cons h hs ih =>
    refine .cons ?_ ih
    rw [Bool.and_eq_true, hs.headD]
    constructor
    · rintro ⟨hx, hp⟩
      exact ⟨_, _, rfl, hx, hp⟩
    · rintro ⟨x, u, he, hx, hp⟩
      cases he
      exact ⟨hx, hp⟩

theorem Answers.someRest (h : Answers P s bs) :
    Answers (fun t => ∃ u v, t = u ++ v ∧ P v) s (someRest bs) := by
  induction h with
  | nil h =>
    refine .nil ?_
    rw [Glob.someRest, Bool.or_eq_true, h]
    constructor
    · rintro (hp | hf)
      · exact ⟨[], [], rfl, hp⟩
      · cases hf
    · rintro ⟨u, v, he, hp⟩
      obtain ⟨rfl, rfl⟩ := List.append_eq_nil_iff.mp he.symm
      exact Or.inl hp
  | @cons c s b bs h hs ih =>
    refine .cons ?_ ih
    rw [Bool.or_eq_true, h, ih.headD]
    constructor
    · rintro (hp | ⟨u, v, rfl, hp⟩)
      · exact ⟨[], _, rfl, hp⟩
      · exact ⟨c :: u, v, rfl, hp⟩
    · rintro ⟨u, v, he, hp⟩
      cases u with
      | nil => exact Or.inl (he ▸ hp)
      | cons d u =>
        cases he
        exact Or.inr ⟨u, v, rfl, hp⟩

theorem Answers.someRestBehindSlash (h : Answers P s bs) :
    Answers (fun t => ∃ u v, t = u ++ v ∧ (u.getLast? = some '/' ∨ v = []) ∧ P v) s
      (someRestBehindSlash s bs) := by
  induction h with
  | nil h =>
    refine .nil ?_
    rw [h]
    constructor
    · exact fun hp => ⟨[], [], rfl, Or.inr rfl, hp⟩
    · rintro ⟨u, v, he, -, hp⟩
      obtain ⟨rfl, rfl⟩ := List.append_eq_nil_iff.mp he.symm
      exact hp
  | @cons c s b bs h hs ih =>
    refine .cons ?_ ih
    rw [Bool.or_eq_true, Bool.and_eq_true, hs.headD, ih.headD, beq_iff_eq]
    constructor
    · rintro (⟨rfl, hp⟩ | ⟨u, v, rfl, hu, hp⟩)
      · exact ⟨['/'], s, rfl, Or.inl rfl, hp⟩
      · refine ⟨c :: u, v, rfl, hu.imp_left fun hu => ?_, hp⟩
        cases u with
        | nil => cases hu
        | cons d u => exact hu
    · rintro ⟨u, v, he, hu, hp⟩
      cases u with
      | nil =>
        obtain rfl : c :: s = v := he
        rcases hu with hu | hu <;> cases hu
      | cons d u =>
        cases he
        cases u with
        | nil =>
          rcases hu with hu | rfl
          · exact Or.inl ⟨Option.some.inj hu, hp⟩
          · exact Or.inr ⟨[], [], rfl, Or.inr rfl, hp⟩
        | cons e u => exact Or.inr ⟨e :: u, v, rfl, hu, hp⟩

/-! ### Parts -/

theorem answers_matchedRests (s : List Char) : ∀ ts : List Token,
    Answers (Matches ts) s (matchedRests s ts)
  | [] => (answers_end s).imp fun t => by
    constructor
    · rintro rfl
      exact .nil
    · rintro ⟨⟩
      rfl
  | .char c :: ts => (answers_matchedRests s ts).oneThen.imp fun t => by
    constructor
    · rintro ⟨x, u, rfl, hx, h⟩
      exact beq_iff_eq.mp hx ▸ .char x h
    · intro h
      cases h with
      | char _ h => exact ⟨c, _, rfl, beq_self_eq_true c, h⟩
  | .any :: ts => (answers_matchedRests s ts).oneThen.imp fun t => by
    constructor
    · rintro ⟨x, u, rfl, -, h⟩
      exact .any x h
    · intro h
      cases h with
      | any x h => exact ⟨x, _, rfl, rfl, h⟩
  | .many :: ts => (answers_matchedRests s ts).someRest.imp fun t => by
    constructor
    · rintro ⟨u, v, rfl, h⟩
      exact .many u h
    · intro h
      cases h with
      | many u h => exact ⟨u, _, rfl, h⟩
  | .directories :: ts => by
    have h := answers_matchedRests s ts
    refine (h.zipWith_or h.someRestBehindSlash).imp fun t => ?_
    constructor
    · rintro (h | ⟨u, v, rfl, hu, h⟩)
      · exact .directories (u := []) (Or.inl rfl) h
      · exact .directories (Or.inr hu) h
    · intro h
      cases h with
      | directories hu h =>
        rcases hu with rfl | hu
        · exact Or.inl h
        · exact Or.inr ⟨_, _, rfl, hu, h⟩
  | .within set :: ts => (answers_matchedRests s ts).oneThen.imp fun t => by
    constructor
    · rintro ⟨x, u, rfl, hx, h⟩
      exact .within hx h
    · intro h
      cases h with
      | within hx h => exact ⟨_, _, rfl, hx, h⟩
  | .except set :: ts => (answers_matchedRests s ts).oneThen.imp fun t => by
    constructor
    · rintro ⟨x, u, rfl, hx, h⟩
      exact .except (Bool.not_eq_true' _ ▸ hx) h
    · intro h
      cases h with
      | except hx h => exact ⟨_, _, rfl, (Bool.not_eq_true' _).mpr hx, h⟩

/-- **Matching from the end of a text finds the matches.** -/
theorem tokensMatch_iff {ts : List Token} {s : List Char} :
    tokensMatch ts s = true ↔ Matches ts s :=
  (answers_matchedRests s ts).headD

end Glob

/-! ### Patterns -/

/-- A path without slashes is its own last name. -/
theorem lastName_of_slash_notMem {path : List Char} (h : '/' ∉ path) : lastName path = path := by
  have h' : ∀ c ∈ path.reverse, (c != '/') = true := fun c hc =>
    bne_iff_ne.mpr fun hs => h (hs ▸ List.mem_reverse.mp hc)
  rw [lastName, List.takeWhile_eq_self_iff.mpr h', List.reverse_reverse]

namespace Pattern

variable {glob : String} {tokens : List Glob.Token}

/-- A glob that can be read is ready to match, and looks at the whole path if it has a slash in the
common form of paths. -/
theorem compile_glob (h : Glob.read? (normalizePath glob.toList) = some tokens) (negated : Bool) :
    compile ⟨.glob, glob, negated⟩ =
      .ok ⟨.glob tokens ((normalizePath glob.toList).contains '/'), negated⟩ := by
  have hm : matcher? ⟨.glob, glob, negated⟩ =
      some (.glob tokens ((normalizePath glob.toList).contains '/')) := by
    simp only [matcher?, h, Option.map_some]
  rw [compile, hm]

/-- **A glob that has a separator apart from that of a leading `./` is matched with whole paths
alone.** Without one the last name of a path is enough, so the same holds only for the candidates that
have no separator either. -/
theorem isMatch_glob_iff (h : Glob.read? (normalizePath glob.toList) = some tokens) :
    ∃ p, compile ⟨.glob, glob, false⟩ = .ok p ∧
      (∀ c : String, '/' ∈ normalizePath glob.toList ∨ '/' ∉ normalizePath c.toList →
        (p.isMatch c = true ↔ Glob.Matches tokens (normalizePath c.toList))) ∧
      ('/' ∉ normalizePath glob.toList → ∀ c : String,
        (p.isMatch c = true ↔ Glob.Matches tokens (lastName (normalizePath c.toList)))) := by
  refine ⟨_, compile_glob h false, fun c hc => ?_, fun hg c => ?_⟩
  · rw [CompiledPattern.isMatch, Bool.bne_false, Matcher.hits, Glob.tokensMatch_iff]
    by_cases hg : '/' ∈ normalizePath glob.toList
    · rw [if_pos (List.contains_iff_mem.mpr hg)]
    · rw [if_neg (fun ht => hg (List.contains_iff_mem.mp ht)),
        lastName_of_slash_notMem (hc.resolve_left hg)]
  · rw [CompiledPattern.isMatch, Bool.bne_false, Matcher.hits, Glob.tokensMatch_iff,
      if_neg (fun ht => hg (List.contains_iff_mem.mp ht))]

/-- `./src\*.cs` selects `.\src\a.cs`, and it does not select `lib/src/a.cs`. -/
theorem isMatch_glob_iff_source :
    ∃ p, compile ⟨.glob, "./src\\*.cs", false⟩ = .ok p ∧ p.isMatch ".\\src\\a.cs" = true ∧
      p.isMatch "lib/src/a.cs" = false := by
  obtain ⟨p, hp, hmatch, -⟩ := @isMatch_glob_iff "./src\\*.cs"
    [.char 's', .char 'r', .char 'c', .char '/', .many, .char '.', .char 'c', .char 's']
    (by decide +kernel)
  have hslash : '/' ∈ normalizePath "./src\\*.cs".toList := by decide +kernel
  refine ⟨p, hp, (hmatch _ (Or.inl hslash)).mpr (Glob.tokensMatch_iff.mp (by decide +kernel)),
    Bool.eq_false_iff.mpr fun hlib => ?_⟩
  have hlib := Glob.tokensMatch_iff.mpr ((hmatch _ (Or.inl hslash)).mp hlib)
  exact absurd hlib (by decide +kernel)

/-- The glob `./a.cs` has a separator and selects `src/a.cs`, which it does not match as a whole. -/
theorem leadingDot_matches_lastName :
    '/' ∈ "./a.cs".toList ∧
      Glob.read? (normalizePath "./a.cs".toList) = some ("a.cs".toList.map .char) ∧
      (∃ p, compile ⟨.glob, "./a.cs", false⟩ = .ok p ∧ p.isMatch "src/a.cs" = true) ∧
      ¬ Glob.Matches ("a.cs".toList.map .char) (normalizePath "src/a.cs".toList) := by
  have hread : Glob.read? (normalizePath "./a.cs".toList) = some ("a.cs".toList.map .char) := by
    decide +kernel
  refine ⟨by decide +kernel, hread, ⟨_, compile_glob hread false, by decide +kernel⟩, fun h => ?_⟩
  exact absurd (Glob.tokensMatch_iff.mpr h) (by decide +kernel)

end Pattern

end BuildPlan
