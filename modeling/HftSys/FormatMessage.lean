import Mathlib.Data.List.Basic
import Mathlib.Data.List.Infix
import Mathlib.Tactic.Basic

/-!
# Formatting a message

`Logger::formatMessage` puts the texts of a message's arguments in the place of the `{}` of its
format string. It does so in the string it walks along, and sets the index behind what it has put
there by adding the text's length less one, which for an empty text is the largest `size_t`.

`formatMessage_eq`: what comes out is the format string cut at its placeholders, read once from the
left, with the texts in between (`fillIn`, `pieces`). The walk keeps the string as a part that is
done with and a part of the format string still to come, so no text is looked at again.
-/

namespace HftSys

/-! ## The source -/

/-- The characters of a `std::string`. -/
abbrev Text := List UInt8

/-- The character `{`. -/
def openBrace : UInt8 := 123

/-- The character `}`. -/
def closeBrace : UInt8 := 125

/-- Why `formatMessage` does not return: a string is to become longer than `max_size()`, or the loop
goes round for ever. -/
inductive FormatFault where
  | lengthError
  | diverges
deriving DecidableEq, Repr

section source

variable {Arg : Type} (maxSize : UInt64) (anyToString : Arg → Text) (args : List Arg)

/-- A new `std::string` from a `std::string_view`. -/
def makeText (formatString : Text) : Except FormatFault Text :=
  if maxSize.toNat < formatString.length then .error .lengthError else .ok formatString

/-- `std::string::replace` of the `n` characters from `i` on. -/
def replaceText (result : Text) (i n : ℕ) (argStr : Text) : Except FormatFault Text :=
  if maxSize.toNat < result.length - n + argStr.length then .error .lengthError
  else .ok (result.take i ++ argStr ++ result.drop (i + n))

/-- The body of the loop, which yields the string, `arg_index` and `i`.
Source: `logger.cpp`, `Logger::formatMessage` -/
def formatTurn (result : Text) (argIndex : ℕ) (i : UInt64) :
    Except FormatFault (Text × ℕ × UInt64) :=
  if result[i.toNat]? = some openBrace ∧ (i + 1).toNat < result.length ∧
      result[(i + 1).toNat]? = some closeBrace then
    match args[argIndex]? with
    | none => .ok (result, argIndex, i)
    | some arg => do
      let argStr := anyToString arg
      let result ← replaceText maxSize result i.toNat 2 argStr
      .ok (result, argIndex + 1, i + (UInt64.ofNat argStr.length - 1))
  else .ok (result, argIndex, i)

/-- The loop, at most `fuel` turns. Source: `logger.cpp`, `Logger::formatMessage` -/
def formatLoop : ℕ → Text → ℕ → UInt64 → Except FormatFault Text
  | 0, _, _, _ => .error .diverges
  | fuel + 1, result, argIndex, i =>
    if i.toNat < result.length then do
      let (result, argIndex, i) ← formatTurn maxSize anyToString args result argIndex i
      formatLoop fuel result argIndex (i + 1)
    else .ok result

/-- `formatMessage`, with a bound on the turns: every turn leaves a character of the format string
behind. Source: `logger.cpp`, `Logger::formatMessage` -/
def formatMessage (formatString : Text) : Except FormatFault Text := do
  let result ← makeText maxSize formatString
  formatLoop maxSize anyToString args (formatString.length + 1) result 0 0

end source

/-! ## Cutting a format string -/

/-- `c` in front of the first piece. -/
def prepend (c : UInt8) : List Text → List Text
  | [] => [[c]]
  | p :: ps => (c :: p) :: ps

/-- What stands before, between and behind the placeholders of a format string. -/
def pieces : Text → List Text
  | [] => [[]]
  | [c] => [[c]]
  | c :: d :: s =>
    if c = openBrace ∧ d = closeBrace then [] :: pieces s else prepend c (pieces (d :: s))

/-- The pieces with the texts between them, and placeholders once there are no more texts. -/
def fillIn : List Text → List Text → Text
  | _, [] => []
  | _, [p] => p
  | [], p :: q :: ps => p ++ [openBrace, closeBrace] ++ fillIn [] (q :: ps)
  | t :: ts, p :: q :: ps => p ++ t ++ fillIn ts (q :: ps)

/-- The format string begins with a placeholder. -/
def AtPlaceholder (s : Text) : Prop := ∃ s', s = openBrace :: closeBrace :: s'

section pieces

variable {c : UInt8} {s t : Text} {ts : List Text}

theorem pieces_placeholder : pieces (openBrace :: closeBrace :: s) = [] :: pieces s :=
  if_pos ⟨rfl, rfl⟩

theorem pieces_cons (h : ¬ AtPlaceholder (c :: s)) : pieces (c :: s) = prepend c (pieces s) := by
  cases s with
  | nil => rfl
  | cons d s =>
    refine if_neg ?_
    rintro ⟨rfl, rfl⟩
    exact h ⟨s, rfl⟩

theorem exists_pieces (s : Text) : ∃ p ps, pieces s = p :: ps := by
  by_cases h : AtPlaceholder s
  · obtain ⟨s', rfl⟩ := h
    exact ⟨_, _, pieces_placeholder⟩
  · cases s with
    | nil => exact ⟨_, _, rfl⟩
    | cons c s =>
      rw [pieces_cons h]
      cases pieces s with
      | nil => exact ⟨_, _, rfl⟩
      | cons p ps => exact ⟨_, _, rfl⟩

/-- A placeholder takes a text. -/
theorem fillIn_placeholder :
    fillIn (t :: ts) (pieces (openBrace :: closeBrace :: s)) = t ++ fillIn ts (pieces s) := by
  obtain ⟨p, ps, hs⟩ := exists_pieces s
  rw [pieces_placeholder, hs]
  rfl

/-- Any other character stays. -/
theorem fillIn_cons (h : ¬ AtPlaceholder (c :: s)) :
    fillIn ts (pieces (c :: s)) = c :: fillIn ts (pieces s) := by
  obtain ⟨p, ps, hs⟩ := exists_pieces s
  rw [pieces_cons h, hs]
  cases ps with
  | nil =>
    cases ts with
    | nil => rfl
    | cons t ts => rfl
  | cons q ps =>
    cases ts with
    | nil => rfl
    | cons t ts => rfl

/-- Without texts the format string stays as it is. -/
theorem fillIn_nil (s : Text) : fillIn [] (pieces s) = s := by
  induction s using pieces.induct with
  | case1 => rfl
  | case2 c => rfl
  | case3 c d s h ih =>
    obtain ⟨rfl, rfl⟩ := h
    obtain ⟨p, ps, hs⟩ := exists_pieces s
    rw [pieces_placeholder, hs]
    rw [hs] at ih
    show [openBrace, closeBrace] ++ fillIn [] (p :: ps) = _
    rw [ih]
    rfl
  | case4 c d s h ih =>
    rw [fillIn_cons, ih]
    rintro ⟨s', hs⟩
    cases hs
    exact h ⟨rfl, rfl⟩

/-- The first piece is where the format string begins. -/
theorem prefix_of_pieces {p : Text} {ps : List Text} (h : pieces s = p :: ps) : p <+: s := by
  have hs := fillIn_nil s
  rw [h] at hs
  cases ps with
  | nil => exact ⟨[], (List.append_nil p).trans hs⟩
  | cons q qs =>
    refine ⟨[openBrace, closeBrace] ++ fillIn [] (q :: qs), ?_⟩
    rw [← List.append_assoc]
    exact hs

/-- No piece holds a placeholder. -/
theorem not_infix_of_mem_pieces {p : Text} (hp : p ∈ pieces s) :
    ¬ [openBrace, closeBrace] <:+: p := by
  induction s using pieces.induct generalizing p with
  | case1 =>
    rw [List.mem_singleton.mp hp]
    decide
  | case2 c =>
    rw [List.mem_singleton.mp hp]
    exact fun hin => Nat.not_succ_le_self 1 hin.length_le
  | case3 c d s h ih =>
    obtain ⟨rfl, rfl⟩ := h
    rw [pieces_placeholder] at hp
    rcases List.mem_cons.mp hp with rfl | hp
    · decide
    · exact ih hp
  | case4 c d s h ih =>
    obtain ⟨q, qs, hds⟩ := exists_pieces (d :: s)
    have hcut : pieces (c :: d :: s) = (c :: q) :: qs := by
      rw [pieces, if_neg h, hds]
      rfl
    rw [hcut] at hp
    rcases List.mem_cons.mp hp with rfl | hp
    · -- a placeholder at the front would stand at the front of the format string
      rw [List.infix_cons_iff]
      rintro (hfront | hlater)
      · obtain ⟨u, hu⟩ := hfront.trans (List.cons_prefix_cons.mpr ⟨rfl, prefix_of_pieces hds⟩)
        simp only [List.cons_append, List.nil_append, List.cons.injEq] at hu
        exact h ⟨hu.1.symm, hu.2.1.symm⟩
      · exact ih (hds ▸ List.mem_cons_self) hlater
    · exact ih (hds ▸ List.mem_cons_of_mem _ hp)

end pieces

/-! ## The walk -/

/-- The texts `ts` fit in one after the other: no string on the way, `n` characters followed by what
is made of `s`, is longer than `limit`. -/
def FitsIn (limit n : ℕ) (ts : List Text) (s : Text) : Prop :=
  ∀ k ≤ ts.length, n + (fillIn (ts.take k) (pieces s)).length ≤ limit

instance (limit n : ℕ) (ts : List Text) (s : Text) : Decidable (FitsIn limit n ts s) :=
  inferInstanceAs (Decidable (∀ k ≤ ts.length, _))

section walk

variable {limit n : ℕ} {c : UInt8} {s t : Text} {ts : List Text}

theorem FitsIn.length_le (h : FitsIn limit n ts s) : n + s.length ≤ limit := by
  have hzero := h 0 (Nat.zero_le _)
  rwa [List.take_zero, fillIn_nil] at hzero

/-- At a placeholder the next text has to fit, and the others behind it. -/
theorem fitsIn_placeholder (hlen : n + (openBrace :: closeBrace :: s).length ≤ limit) :
    FitsIn limit n (t :: ts) (openBrace :: closeBrace :: s) ↔ FitsIn limit (n + t.length) ts s := by
  constructor
  · intro h k hk
    have hnext := h (k + 1) (Nat.succ_le_succ hk)
    rwa [List.take_succ_cons, fillIn_placeholder, List.length_append, ← Nat.add_assoc] at hnext
  · intro h k hk
    cases k with
    | zero => rwa [List.take_zero, fillIn_nil]
    | succ k =>
      rw [List.take_succ_cons, fillIn_placeholder, List.length_append, ← Nat.add_assoc]
      exact h k (Nat.le_of_succ_le_succ hk)

/-- Any other character is stepped over, and so is the brace of a placeholder there is no text
for. -/
theorem fillIn_skip (h : AtPlaceholder (c :: s) → ts = []) :
    fillIn ts (pieces (c :: s)) = c :: fillIn ts (pieces s) := by
  by_cases hat : AtPlaceholder (c :: s)
  · rw [h hat, fillIn_nil, fillIn_nil]
  · exact fillIn_cons hat

theorem fitsIn_skip (h : AtPlaceholder (c :: s) → ts = []) :
    FitsIn limit n ts (c :: s) ↔ FitsIn limit (n + 1) ts s := by
  refine forall_congr' fun k => forall_congr' fun _ => ?_
  rw [fillIn_skip fun hat => by rw [h hat, List.take_nil], List.length_cons]
  omega

end walk

section loop

variable {Arg : Type} {maxSize : UInt64} {anyToString : Arg → Text} {args : List Arg}
  {before s : Text} {c : UInt8} {argIndex : ℕ}

/-- The index behind what is done with. -/
abbrev indexAfter (before : Text) : UInt64 := UInt64.ofNat before.length

theorem toNat_indexAfter (h : (before ++ s).length ≤ maxSize.toNat) :
    (indexAfter before).toNat = before.length := by
  apply UInt64.toNat_ofNat_of_lt'
  rw [List.length_append] at h
  exact (Nat.le_of_add_right_le h).trans_lt maxSize.toNat_lt

/-- `i += arg_str.length() - 1` and `++i` step over the text, also when it is empty. -/
theorem indexAfter_append (before argStr : Text) :
    indexAfter before + (UInt64.ofNat argStr.length - 1) + 1 = indexAfter (before ++ argStr) := by
  rw [UInt64.add_assoc, UInt64.sub_add_cancel, indexAfter, indexAfter, List.length_append,
    UInt64.ofNat_add]

/-- The two characters the body looks at. -/
theorem atPlaceholder_iff (h : (before ++ c :: s).length ≤ maxSize.toNat) :
    ((before ++ c :: s)[(indexAfter before).toNat]? = some openBrace ∧
        (indexAfter before + 1).toNat < (before ++ c :: s).length ∧
        (before ++ c :: s)[(indexAfter before + 1).toNat]? = some closeBrace) ↔
      AtPlaceholder (c :: s) := by
  have hi := toNat_indexAfter h
  have hnext : (indexAfter before + 1).toNat = before.length + 1 := by
    have hmax := maxSize.toNat_lt
    rw [List.length_append, List.length_cons] at h
    rw [UInt64.toNat_add, hi]
    exact Nat.mod_eq_of_lt (by simpa using by omega)
  rw [hi, hnext]
  cases s with
  | nil => simp [AtPlaceholder]
  | cons d s => simp [AtPlaceholder]

/-- A turn at a character that stays. -/
theorem formatTurn_skip (h : (before ++ c :: s).length ≤ maxSize.toNat)
    (hskip : AtPlaceholder (c :: s) → args[argIndex]? = none) :
    formatTurn maxSize anyToString args (before ++ c :: s) argIndex (indexAfter before) =
      .ok (before ++ c :: s, argIndex, indexAfter before) := by
  unfold formatTurn
  split
  · rename_i hat
    rw [hskip ((atPlaceholder_iff h).mp hat)]
  · rfl

/-- A turn at a placeholder there is an argument for. -/
theorem formatTurn_placeholder {arg : Arg}
    (h : (before ++ openBrace :: closeBrace :: s).length ≤ maxSize.toNat)
    (harg : args[argIndex]? = some arg) :
    formatTurn maxSize anyToString args (before ++ openBrace :: closeBrace :: s) argIndex
        (indexAfter before) =
      if maxSize.toNat < before.length + (anyToString arg).length + s.length then
        .error .lengthError
      else .ok (before ++ anyToString arg ++ s, argIndex + 1,
        indexAfter before + (UInt64.ofNat (anyToString arg).length - 1)) := by
  have hi := toNat_indexAfter h
  unfold formatTurn
  rw [if_pos ((atPlaceholder_iff h).mpr ⟨s, rfl⟩), harg]
  simp only [replaceText, hi]
  have hsize : (before ++ openBrace :: closeBrace :: s).length - 2 + (anyToString arg).length =
      before.length + (anyToString arg).length + s.length := by
    simp only [List.length_append, List.length_cons]
    omega
  rw [hsize]
  split
  · rfl
  · simp only [List.take_left, List.drop_append, List.drop_eq_nil_of_le (Nat.le_add_right _ 2),
      Nat.add_sub_cancel_left, List.nil_append]
    rfl

/-- The texts of the arguments not used so far. -/
abbrev textsFrom (anyToString : Arg → Text) (args : List Arg) (argIndex : ℕ) : List Text :=
  (args.drop argIndex).map anyToString

theorem textsFrom_of_none (h : args[argIndex]? = none) : textsFrom anyToString args argIndex = [] := by
  rw [textsFrom, List.drop_eq_nil_of_le (List.getElem?_eq_none_iff.mp h)]
  rfl

theorem textsFrom_of_some {arg : Arg} (h : args[argIndex]? = some arg) :
    textsFrom anyToString args argIndex =
      anyToString arg :: textsFrom anyToString args (argIndex + 1) := by
  obtain ⟨hlt, hget⟩ := List.getElem?_eq_some_iff.mp h
  rw [textsFrom, List.drop_eq_getElem_cons hlt, hget]
  rfl

/-- The loop ends behind the string. -/
theorem formatLoop_end (fuel : ℕ) (h : (before ++ []).length ≤ maxSize.toNat) :
    formatLoop maxSize anyToString args (fuel + 1) (before ++ []) argIndex (indexAfter before) =
      .ok (before ++ []) := by
  rw [formatLoop, if_neg]
  rw [toNat_indexAfter h, List.append_nil]
  exact Nat.lt_irrefl _

/-- A turn of the loop. -/
theorem formatLoop_succ (fuel : ℕ) (h : (before ++ c :: s).length ≤ maxSize.toNat) :
    formatLoop maxSize anyToString args (fuel + 1) (before ++ c :: s) argIndex (indexAfter before) =
      (do let (result, argIndex, i) ←
            formatTurn maxSize anyToString args (before ++ c :: s) argIndex (indexAfter before)
          formatLoop maxSize anyToString args fuel result argIndex (i + 1)) := by
  rw [formatLoop, if_pos]
  rw [toNat_indexAfter h, List.length_append, List.length_cons]
  omega

/-- A turn at a character that stays. -/
theorem formatLoop_skip (fuel : ℕ) (h : (before ++ c :: s).length ≤ maxSize.toNat)
    (hskip : AtPlaceholder (c :: s) → args[argIndex]? = none) :
    formatLoop maxSize anyToString args (fuel + 1) (before ++ c :: s) argIndex (indexAfter before) =
      formatLoop maxSize anyToString args fuel (before ++ [c] ++ s) argIndex
        (indexAfter (before ++ [c])) := by
  rw [formatLoop_succ fuel h, formatTurn_skip h hskip, List.append_assoc, indexAfter, indexAfter,
    List.length_append, UInt64.ofNat_add]
  rfl

/-- A turn at a placeholder there is an argument for. -/
theorem formatLoop_placeholder (fuel : ℕ) {arg : Arg}
    (h : (before ++ openBrace :: closeBrace :: s).length ≤ maxSize.toNat)
    (harg : args[argIndex]? = some arg) :
    formatLoop maxSize anyToString args (fuel + 1) (before ++ openBrace :: closeBrace :: s) argIndex
        (indexAfter before) =
      if maxSize.toNat < (before ++ anyToString arg).length + s.length then .error .lengthError
      else formatLoop maxSize anyToString args fuel (before ++ anyToString arg ++ s) (argIndex + 1)
        (indexAfter (before ++ anyToString arg)) := by
  rw [formatLoop_succ fuel h, formatTurn_placeholder h harg, List.length_append, ← indexAfter_append]
  split
  · rfl
  · rfl

/-- **The loop**, with `before` done and `s` of the format string to come: it fills the texts in, or
stops at the first that does not fit. -/
theorem formatLoop_eq {fuel : ℕ} (hfuel : s.length < fuel)
    (hlen : before.length + s.length ≤ maxSize.toNat) :
    (FitsIn maxSize.toNat before.length (textsFrom anyToString args argIndex) s →
      formatLoop maxSize anyToString args fuel (before ++ s) argIndex (indexAfter before) =
        .ok (before ++ fillIn (textsFrom anyToString args argIndex) (pieces s))) ∧
    (¬ FitsIn maxSize.toNat before.length (textsFrom anyToString args argIndex) s →
      formatLoop maxSize anyToString args fuel (before ++ s) argIndex (indexAfter before) =
        .error .lengthError) := by
  induction fuel generalizing before s argIndex with
  | zero => exact absurd hfuel (Nat.not_lt_zero _)
  | succ fuel ih =>
    have hsize : (before ++ s).length ≤ maxSize.toNat := by rwa [List.length_append]
    cases s with
    | nil =>
      have hfill : ∀ ts : List Text, fillIn ts (pieces []) = [] := by
        intro ts
        cases ts with
        | nil => rfl
        | cons t ts => rfl
      refine ⟨fun _ => by rw [formatLoop_end fuel hsize, hfill], fun hnot => absurd ?_ hnot⟩
      intro k _
      rwa [hfill]
    | cons c s =>
      by_cases hskip : AtPlaceholder (c :: s) → args[argIndex]? = none
      · -- the character is done with
        have hnone : AtPlaceholder (c :: s) → textsFrom anyToString args argIndex = [] :=
          fun hat => textsFrom_of_none (hskip hat)
        have hlen' : (before ++ [c]).length + s.length ≤ maxSize.toNat := by
          simp only [List.length_append, List.length_cons, List.length_nil] at hlen ⊢
          omega
        rw [formatLoop_skip fuel hsize hskip, fitsIn_skip hnone, fillIn_skip hnone,
          List.append_cons before c (fillIn _ _), ← List.length_singleton, ← List.length_append]
        exact ih (Nat.lt_of_succ_lt_succ hfuel) hlen'
      · -- the placeholder gets its text
        push Not at hskip
        obtain ⟨⟨s, hs⟩, hsome⟩ := hskip
        obtain ⟨arg, harg⟩ := Option.ne_none_iff_exists'.mp hsome
        cases hs
        rw [formatLoop_placeholder fuel hsize harg, textsFrom_of_some harg, fitsIn_placeholder hlen,
          fillIn_placeholder, ← List.length_append, ← List.append_assoc]
        by_cases hbig : maxSize.toNat < (before ++ anyToString arg).length + s.length
        · rw [if_pos hbig]
          exact ⟨fun hfits => absurd hfits.length_le (Nat.not_le_of_lt hbig), fun _ => rfl⟩
        · rw [if_neg hbig]
          exact ih (Nat.lt_of_succ_lt (Nat.lt_of_succ_lt_succ hfuel)) (Nat.le_of_not_lt hbig)

end loop

/-- `formatMessage` fills the texts in, or finds that they do not fit. -/
theorem formatMessage_ite {Arg : Type} {maxSize : UInt64} {anyToString : Arg → Text}
    (args : List Arg) (s : Text) :
    formatMessage maxSize anyToString args s =
      if FitsIn maxSize.toNat 0 (args.map anyToString) s then
        .ok (fillIn (args.map anyToString) (pieces s))
      else .error .lengthError := by
  by_cases hlong : maxSize.toNat < s.length
  · have hnot : ¬ FitsIn maxSize.toNat 0 (args.map anyToString) s := by
      intro hfits
      have hle := hfits.length_le
      omega
    unfold formatMessage makeText
    rw [if_pos hlong, if_neg hnot]
    rfl
  · have hlen : ([] : Text).length + s.length ≤ maxSize.toNat := by
      rw [List.length_nil]
      omega
    have hloop : formatMessage maxSize anyToString args s =
        formatLoop maxSize anyToString args (s.length + 1) ([] ++ s) 0 (indexAfter []) := by
      unfold formatMessage makeText
      rw [if_neg hlong]
      rfl
    have htexts : args.map anyToString = textsFrom anyToString args 0 := rfl
    rw [hloop, htexts]
    split
    next hfits => exact (formatLoop_eq (Nat.lt_succ_self _) hlen).1 hfits
    next hnot => exact (formatLoop_eq (Nat.lt_succ_self _) hlen).2 hnot

/-- **Placeholders are filled in a single pass.** `formatMessage` always comes to an end. It returns
the format string with the texts of its arguments between its pieces, unless one of the strings on
the way there would be longer than a `std::string` can be. The pieces are the format string cut at
its placeholders: with these between them they are the format string, and no piece holds one. -/
theorem formatMessage_eq {Arg : Type} (maxSize : UInt64) (anyToString : Arg → Text)
    (formatString : Text) (args : List Arg) :
    (FitsIn maxSize.toNat 0 (args.map anyToString) formatString →
      formatMessage maxSize anyToString args formatString =
        .ok (fillIn (args.map anyToString) (pieces formatString))) ∧
    (¬ FitsIn maxSize.toNat 0 (args.map anyToString) formatString →
      formatMessage maxSize anyToString args formatString = .error .lengthError) ∧
    fillIn [] (pieces formatString) = formatString ∧
    ∀ p ∈ pieces formatString, ¬ [openBrace, closeBrace] <:+: p := by
  refine ⟨fun hfits => ?_, fun hnot => ?_, fillIn_nil formatString,
    fun p hp => not_infix_of_mem_pieces hp⟩
  · rw [formatMessage_ite, if_pos hfits]
  · rw [formatMessage_ite, if_neg hnot]

/-- The `{` an argument brings along makes no placeholder with the `}` behind it, nor does an empty
text with its neighbours. In a string of at most six characters the format string has no room. -/
theorem formatMessage_eq_sample :
    formatMessage 4611686018427387903 id [[openBrace], []]
        [openBrace, closeBrace, closeBrace, openBrace, openBrace, closeBrace, closeBrace] =
      .ok [openBrace, closeBrace, openBrace, closeBrace] ∧
    formatMessage 6 id [[openBrace], []]
        [openBrace, closeBrace, closeBrace, openBrace, openBrace, closeBrace, closeBrace] =
      .error .lengthError :=
  ⟨(formatMessage_eq 4611686018427387903 id _ [[openBrace], []]).1 (by decide),
    (formatMessage_eq 6 id _ [[openBrace], []]).2.1 (by decide)⟩

end HftSys
