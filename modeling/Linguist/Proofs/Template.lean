import Mathlib.Data.List.TakeWhile
import Mathlib.Logic.Function.Basic
import Linguist.Proofs.Sequence.Sorting
import Linguist.Template

/-!
# Filling in all at once

Several arguments are filled in one after the other, and each time the whole text is searched for
its lowest marker again, with what the arguments before have brought in.  If no argument can make
a marker, nothing of this is to be seen in the result: the arguments stand in it as if all of
them had been filled in at once (`Template.fillAll_eq_substitute`).

## Clean arguments

What has been filled in stands next to other text, and a marker may come about across the border.
A percent sign before it wants an `L` or a digit, and the marker `%1` before it wants one more
digit; so a *clean* argument begins with neither.  It must not have a percent sign, which might
want what is behind the argument, and it must not be empty, for then the two sides meet
(`Template.Clean`).

## One substitution for all steps

After each step the text is the first one with some of its markers substituted, and its pieces
are those of the first text with characters in the place of these markers (`pieces_substitute`).
This is why the next step finds the next higher marker, and nothing else.
-/

namespace Linguist
namespace Template

/-! ## Pieces -/

@[simp] theorem pieces_nil : pieces [] = [] := by rw [pieces]

theorem pieces_cons {c : Char} (h : c ≠ '%') (rest : List Char) :
    pieces (c :: rest) = .char c :: pieces rest := by
  rw [pieces, if_neg h]

theorem pieces_percent (rest : List Char) :
    pieces ('%' :: rest) =
      match readMarker? rest with
      | some (m, more) => .marker m :: pieces more
      | none => .char '%' :: pieces rest := by
  rw [pieces, if_pos rfl]
  split <;> simp_all

/-- Text without percent signs is characters and nothing else. -/
theorem pieces_append {cs : List Char} (h : '%' ∉ cs) (rest : List Char) :
    pieces (cs ++ rest) = cs.map .char ++ pieces rest := by
  induction cs with
  | nil => rfl
  | cons c cs ih =>
    obtain ⟨hc, hcs⟩ := not_or.1 (mt List.mem_cons.2 h)
    rw [List.cons_append, pieces_cons (Ne.symm hc), ih hcs, List.map_cons, List.cons_append]

theorem readMarker?_of_head? {cs : List Char} (h : cs.head? ≠ some 'L') :
    readMarker? cs = readNumber? false cs := by
  unfold readMarker?
  split
  · exact absurd rfl h
  · rfl

/-- What a number was read from is the number and the rest. -/
theorem eq_of_readNumber? {localized : Bool} {cs more : List Char} {m : Marker}
    (h : readNumber? localized cs = some (m, more)) :
    m.localized = localized ∧ '%' ∉ m.digits ∧ cs = m.digits ++ more := by
  unfold readNumber? at h
  simp only at h
  split at h
  · cases h
  · obtain ⟨rfl, rfl⟩ := Prod.mk.inj (Option.some.inj h)
    refine ⟨rfl, fun hpercent => ?_, ?_⟩
    · exact absurd (List.mem_takeWhile_imp hpercent) (by decide)
    · have hprefix : (cs.take 2).takeWhile Char.isDigit <+: cs :=
        (List.takeWhile_prefix _).trans (List.take_prefix 2 cs)
      exact (List.prefix_iff_eq_append.1 hprefix).symm

/-- What a marker was read from is the marker and the rest. -/
theorem eq_of_readMarker? {cs more : List Char} {m : Marker}
    (h : readMarker? cs = some (m, more)) :
    ∃ text, m.text = '%' :: text ∧ '%' ∉ text ∧ cs = text ++ more := by
  unfold readMarker? at h
  split at h
  · obtain ⟨hlocalized, hpercent, rfl⟩ := eq_of_readNumber? h
    refine ⟨'L' :: m.digits, by simp [Marker.text, hlocalized], ?_, rfl⟩
    simpa using hpercent
  · obtain ⟨hlocalized, hpercent, rfl⟩ := eq_of_readNumber? h
    exact ⟨m.digits, by simp [Marker.text, hlocalized], hpercent, rfl⟩

/-- **The pieces of a text make up the text.** -/
theorem render_pieces (cs : List Char) : render (pieces cs) = cs := by
  fun_induction pieces cs with
  | case1 => rfl
  | case2 rest m more hmarker _ ih =>
    obtain ⟨text, htext, -, rfl⟩ := eq_of_readMarker? hmarker
    rw [render, List.flatMap_cons, ← render, ih, Piece.text, htext, List.cons_append]
  | case3 rest hmarker ih => rw [render, List.flatMap_cons, ← render, ih]; rfl
  | case4 c rest hc ih => rw [render, List.flatMap_cons, ← render, ih]; rfl

/-! ## Substitution -/

/-- A text that makes no marker where it is filled in. -/
structure Clean (value : List Char) : Prop where
  ne_nil : value ≠ []
  no_percent : '%' ∉ value
  head : ∀ c ∈ value.head?, c.isDigit = false ∧ c ≠ 'L'

instance : (value : List Char) → Decidable (Clean value)
  | [] => isFalse fun h => h.ne_nil rfl
  | c :: rest =>
    decidable_of_iff ('%' ∉ c :: rest ∧ c.isDigit = false ∧ c ≠ 'L')
      ⟨fun h => ⟨List.cons_ne_nil c rest, h.1, fun _ hd => Option.some.inj hd ▸ h.2⟩,
        fun h => ⟨h.no_percent, h.head c rfl⟩⟩

/-- The text of a piece, or the argument for it. -/
def Piece.filled (args : Nat → Option (List Char)) (p : Piece) : List Char :=
  (p.number?.bind args).getD p.text

/-- A text with all arguments in the places of their markers. -/
def substitute (args : Nat → Option (List Char)) (cs : List Char) : List Char :=
  (pieces cs).flatMap (Piece.filled args)

/-- What a piece is once the arguments are filled in. -/
def Piece.remaining (args : Nat → Option (List Char)) (p : Piece) : List Piece :=
  ((p.number?.bind args).map (List.map .char)).getD [p]

variable {args : Nat → Option (List Char)}

@[simp] theorem substitute_nil : substitute args [] = [] := by
  rw [substitute, pieces_nil, List.flatMap_nil]

theorem substitute_cons {c : Char} (h : c ≠ '%') (rest : List Char) :
    substitute args (c :: rest) = c :: substitute args rest := by
  rw [substitute, pieces_cons h, List.flatMap_cons]
  rfl

theorem substitute_append {cs : List Char} (h : '%' ∉ cs) (rest : List Char) :
    substitute args (cs ++ rest) = cs ++ substitute args rest := by
  induction cs with
  | nil => rfl
  | cons c cs ih =>
    obtain ⟨hc, hcs⟩ := not_or.1 (mt List.mem_cons.2 h)
    rw [List.cons_append, substitute_cons (Ne.symm hc), ih hcs, List.cons_append]

/-- Without arguments nothing changes. -/
theorem substitute_none (cs : List Char) : substitute (fun _ => none) cs = cs := by
  have hfilled : Piece.filled (fun _ => none) = Piece.text := by
    funext p
    cases p <;> rfl
  rw [substitute, hfilled, ← render, render_pieces]

section Clean

variable (hargs : ∀ n, ∀ value ∈ args n, Clean value)
include hargs

/-- What begins with a percent sign begins with no `L` and no digit after the substitution. -/
theorem head?_substitute_percent (rest : List Char) :
    ∀ c ∈ (substitute args ('%' :: rest)).head?, c.isDigit = false ∧ c ≠ 'L' := by
  intro c hc
  rw [substitute, pieces_percent] at hc
  split at hc
  · rename_i m more _
    rw [List.flatMap_cons] at hc
    cases harg : args m.number with
    | none =>
      have hfilled : Piece.filled args (.marker m) = m.text := by
        rw [Piece.filled, Piece.number?, Option.bind_some, harg]
        rfl
      rw [hfilled] at hc
      obtain rfl : '%' = c := Option.some.inj hc
      decide
    | some value =>
      have hfilled : Piece.filled args (.marker m) = value := by
        rw [Piece.filled, Piece.number?, Option.bind_some, harg]
        rfl
      have hclean := hargs m.number value harg
      obtain ⟨d, ds, rfl⟩ := List.exists_cons_of_ne_nil hclean.ne_nil
      rw [hfilled] at hc
      exact hclean.head c hc
  · obtain rfl : '%' = c := Option.some.inj hc
    decide

/-- The digits at the beginning of a text are there after the substitution, and behind them is
what was behind them. -/
theorem digits_substitute (k : Nat) (cs : List Char) :
    ((substitute args cs).take k).takeWhile Char.isDigit = (cs.take k).takeWhile Char.isDigit ∧
      (substitute args cs).drop ((cs.take k).takeWhile Char.isDigit).length =
        substitute args (cs.drop ((cs.take k).takeWhile Char.isDigit).length) := by
  induction k generalizing cs with
  | zero => exact ⟨rfl, rfl⟩
  | succ k ih =>
    cases cs with
    | nil => simp
    | cons c rest =>
      by_cases hpercent : c = '%'
      · subst hpercent
        have hstop := head?_substitute_percent hargs rest
        refine ⟨?_, rfl⟩
        cases hcs : substitute args ('%' :: rest) with
        | nil => rfl
        | cons d ds =>
          rw [hcs] at hstop
          have hd : ¬ d.isDigit = true := Bool.eq_false_iff.1 (hstop d rfl).1
          rw [List.take_succ_cons, List.takeWhile_cons_of_neg hd]
          rfl
      · rw [substitute_cons hpercent, List.take_succ_cons, List.take_succ_cons]
        by_cases hdigit : c.isDigit = true
        · obtain ⟨hdigits, hrest⟩ := ih rest
          rw [List.takeWhile_cons_of_pos hdigit, List.takeWhile_cons_of_pos hdigit, hdigits]
          exact ⟨rfl, hrest⟩
        · rw [List.takeWhile_cons_of_neg hdigit, List.takeWhile_cons_of_neg hdigit]
          exact ⟨rfl, (substitute_cons hpercent rest).symm⟩

theorem readNumber?_substitute (localized : Bool) (cs : List Char) :
    readNumber? localized (substitute args cs) =
      (readNumber? localized cs).map fun p => (p.1, substitute args p.2) := by
  obtain ⟨hdigits, hrest⟩ := digits_substitute hargs 2 cs
  unfold readNumber?
  simp only [hdigits]
  split
  · rfl
  · rw [hrest, Option.map_some]

/-- **A marker is read after the substitution just where it is read before.** -/
theorem readMarker?_substitute (cs : List Char) :
    readMarker? (substitute args cs) =
      (readMarker? cs).map fun p => (p.1, substitute args p.2) := by
  by_cases hlocal : cs.head? = some 'L'
  · obtain ⟨rest, rfl⟩ := List.head?_eq_some_iff.1 hlocal
    rw [substitute_cons (by decide)]
    exact readNumber?_substitute hargs true rest
  · have hhead : (substitute args cs).head? ≠ some 'L' := by
      intro hhead
      cases cs with
      | nil => rw [substitute_nil] at hhead; cases hhead
      | cons c rest =>
        by_cases hpercent : c = '%'
        · subst hpercent
          exact (head?_substitute_percent hargs rest 'L' hhead).2 rfl
        · rw [substitute_cons hpercent] at hhead
          exact hlocal hhead
    rw [readMarker?_of_head? hlocal, readMarker?_of_head? hhead]
    exact readNumber?_substitute hargs false cs

/-- **The pieces after a substitution** are the pieces before, with characters in the places of
the markers that are filled in. -/
theorem pieces_substitute (cs : List Char) :
    pieces (substitute args cs) = (pieces cs).flatMap (Piece.remaining args) := by
  fun_induction pieces cs with
  | case1 => rw [substitute_nil, pieces_nil, List.flatMap_nil]
  | case2 rest m more hmarker _ ih =>
    have hsubstitute : substitute args ('%' :: rest) =
        Piece.filled args (.marker m) ++ substitute args more := by
      rw [substitute, pieces_percent, hmarker]
      rfl
    rw [hsubstitute, List.flatMap_cons, ← ih]
    cases harg : args m.number with
    | none =>
      -- the marker is still there, and what follows it makes it no longer
      obtain ⟨text, htext, hpercent, rfl⟩ := eq_of_readMarker? hmarker
      have hread := readMarker?_substitute hargs (text ++ more)
      rw [substitute_append hpercent, hmarker, Option.map_some] at hread
      have hfilled : Piece.filled args (.marker m) = '%' :: text := by
        rw [Piece.filled, Piece.number?, Option.bind_some, harg, ← htext]
        rfl
      rw [hfilled, List.cons_append, pieces_percent, hread, Piece.remaining, Piece.number?,
        Option.bind_some, harg]
      rfl
    | some value =>
      have hfilled : Piece.filled args (.marker m) = value := by
        rw [Piece.filled, Piece.number?, Option.bind_some, harg]
        rfl
      rw [hfilled, pieces_append (hargs m.number value harg).no_percent, Piece.remaining,
        Piece.number?, Option.bind_some, harg]
      rfl
  | case3 rest hmarker ih =>
    have hsubstitute : substitute args ('%' :: rest) = '%' :: substitute args rest := by
      rw [substitute, pieces_percent, hmarker]
      rfl
    rw [hsubstitute, pieces_percent, readMarker?_substitute hargs, hmarker, Option.map_none, ih]
    rfl
  | case4 c rest hc ih =>
    rw [substitute_cons hc, pieces_cons hc, ih]
    rfl

end Clean

/-! ## One argument -/

/-- The numbers that are left are those that have no arguments. -/
theorem filterMap_remaining (ps : List Piece) :
    (ps.flatMap (Piece.remaining args)).filterMap Piece.number? =
      (ps.filterMap Piece.number?).filter fun n => (args n).isNone := by
  have hchars : ∀ value : List Char, (value.map Piece.char).filterMap Piece.number? = [] := by
    intro value
    rw [List.filterMap_map]
    exact List.filterMap_eq_nil_iff.2 fun _ _ => rfl
  induction ps with
  | nil => rfl
  | cons p ps ih =>
    rw [List.flatMap_cons, List.filterMap_append, ih]
    cases p with
    | char c => rfl
    | marker m =>
      rw [List.filterMap_cons_some (by rfl), Piece.remaining, Piece.number?, Option.bind_some]
      cases harg : args m.number with
      | none => rw [List.filter_cons_of_pos (by rw [harg]; rfl)]; rfl
      | some value =>
        rw [List.filter_cons_of_neg (by simp [harg]), Option.map_some, Option.getD_some,
          hchars, List.nil_append]

/-- Filling in where the arguments before were filled in is filling in one more. -/
theorem flatMap_fillPiece_remaining {n : Nat} (hn : args n = none) (value : List Char)
    (p : Piece) : (p.remaining args).flatMap (fillPiece n value) =
      p.filled (Function.update args n (some value)) := by
  have hchars : ∀ w : List Char, (w.map Piece.char).flatMap (fillPiece n value) = w := by
    intro w
    rw [List.flatMap_map]
    exact List.flatMap_singleton' w
  cases p with
  | char c => rfl
  | marker m =>
    rw [Piece.remaining, Piece.filled, Piece.number?, Option.bind_some, Option.bind_some,
      Function.update_apply]
    by_cases hm : m.number = n
    · rw [if_pos hm, hm, hn, Option.map_none, Option.getD_none, List.flatMap_singleton, fillPiece,
        Piece.number?, if_pos (congrArg some hm), Option.getD_some]
    · rw [if_neg hm]
      cases args m.number with
      | none =>
        rw [Option.map_none, Option.getD_none, List.flatMap_singleton, fillPiece, Piece.number?,
          if_neg (fun h => hm (Option.some.inj h)), Option.getD_none]
      | some w => exact hchars w

/-- **One argument more** goes to the lowest marker that is left. -/
theorem fill_substitute (hargs : ∀ n, ∀ value ∈ args n, Clean value) (cs : List Char)
    (value : String) :
    fill (String.ofList (substitute args cs)) value =
      match (((pieces cs).filterMap Piece.number?).filter fun n => (args n).isNone).min? with
      | none => String.ofList (substitute args cs)
      | some n => String.ofList (substitute (Function.update args n (some value.toList)) cs) := by
  rw [fill, String.toList_ofList, pieces_substitute hargs, filterMap_remaining]
  cases hmin : (((pieces cs).filterMap Piece.number?).filter fun n => (args n).isNone).min? with
  | none => rfl
  | some n =>
    have hmem := List.min?_mem hmin
    have hleft : args n = none := Option.isNone_iff_eq_none.1 (List.mem_filter.1 hmem).2
    simp only [List.flatMap_assoc, flatMap_fillPiece_remaining hleft]
    rfl

/-! ## All arguments -/

/-- The distinct numbers of the markers are rising. -/
theorem numberSet_spec (s : String) :
    (numberSet s).Pairwise (· < ·) ∧ ∀ n, n ∈ numberSet s ↔ n ∈ numbers s := by
  have hsorted : (numbers s).mergeSort.Pairwise fun a b => (compare a b).isLE := by
    refine (List.pairwise_mergeSort ?_ ?_ _).imp fun {a b} h => ?_
    · intro a b c hab hbc
      simp only [decide_eq_true_eq] at hab hbc ⊢
      omega
    · intro a b
      simp only [Bool.or_eq_true, decide_eq_true_eq]
      omega
    · exact Nat.isLE_compare.2 (of_decide_eq_true h)
  refine ⟨(Sequence.rising_eraseReps hsorted).imp fun h => Nat.compare_eq_lt.1 h, fun n => ?_⟩
  rw [numberSet, Sequence.mem_eraseReps, List.mem_mergeSort]

/-- The arguments for the first numbers of a list, in their order. -/
def argument? (ns : List Nat) (values : List String) (n : Nat) : Option (List Char) :=
  ((ns.zip values).lookup n).map String.toList

section Arguments

variable {n : Nat} {ns : List Nat} {value : String} {values : List String}

theorem argument?_nil (ns : List Nat) (n : Nat) : argument? ns [] n = none := by
  rw [argument?, List.zip_nil_right, List.lookup_nil, Option.map_none]

theorem argument?_cons (n : Nat) (ns : List Nat) (value : String) (values : List String)
    (k : Nat) : argument? (n :: ns) (value :: values) k =
      if k = n then some value.toList else argument? ns values k := by
  rw [argument?, argument?, List.zip_cons_cons, List.lookup_cons]
  by_cases hk : k = n
  · rw [if_pos hk, beq_iff_eq.2 hk, Option.map_some]
  · rw [if_neg hk, beq_eq_false_iff_ne.2 hk]

theorem argument?_eq_none (h : n ∉ ns) (values : List String) : argument? ns values n = none := by
  induction ns generalizing values with
  | nil => rfl
  | cons m ns ih =>
    obtain ⟨hm, hns⟩ := not_or.1 (mt List.mem_cons.2 h)
    cases values with
    | nil => exact argument?_nil _ _
    | cons value values => rw [argument?_cons, if_neg hm, ih hns]

theorem argument?_take (ns : List Nat) (values : List String) :
    argument? ns (values.take ns.length) = argument? ns values := by
  funext n
  induction ns generalizing values with
  | nil => rfl
  | cons m ns ih =>
    cases values with
    | nil => rfl
    | cons value values =>
      rw [List.length_cons, List.take_succ_cons, argument?_cons, argument?_cons, ih]

/-- **Any number of arguments** go to the numbers that are left, in their order. -/
theorem foldl_fill_substitute (hvalues : ∀ value ∈ values, Clean value.toList)
    (hargs : ∀ n, ∀ value ∈ args n, Clean value) {cs : List Char}
    (hrising : ns.Pairwise (· < ·))
    (hleft : ∀ n, n ∈ ns ↔ n ∈ (pieces cs).filterMap Piece.number? ∧ args n = none) :
    values.foldl fill (String.ofList (substitute args cs)) =
      String.ofList (substitute (fun n => (argument? ns values n).or (args n)) cs) := by
  induction values generalizing args ns with
  | nil =>
    simp only [argument?_nil, Option.none_or]
    rfl
  | cons value values ih =>
    obtain ⟨hvalue, hvalues⟩ := List.forall_mem_cons.1 hvalues
    have hmem : ∀ n, n ∈ ((pieces cs).filterMap Piece.number?).filter (fun n => (args n).isNone) ↔
        n ∈ ns := by
      intro n
      rw [List.mem_filter, hleft, Option.isNone_iff_eq_none]
    rw [List.foldl_cons, fill_substitute hargs]
    cases ns with
    | nil =>
      -- no marker is left, and further arguments change nothing
      have hnil : ((pieces cs).filterMap Piece.number?).filter (fun n => (args n).isNone) = [] :=
        List.eq_nil_iff_forall_not_mem.2 fun n hn => List.not_mem_nil ((hmem n).1 hn)
      rw [hnil]
      exact ih hvalues hargs hrising hleft
    | cons n ns =>
      obtain ⟨hlowest, hrising⟩ := List.pairwise_cons.1 hrising
      have hmin : (((pieces cs).filterMap Piece.number?).filter
          fun n => (args n).isNone).min? = some n := by
        refine List.min?_eq_some_iff.2 ⟨(hmem n).2 List.mem_cons_self, fun b hb => ?_⟩
        rcases List.mem_cons.1 ((hmem b).1 hb) with rfl | hb
        · exact Nat.le_refl _
        · exact (hlowest b hb).le
      have hnew : n ∉ ns := fun hn => Nat.lt_irrefl n (hlowest n hn)
      -- after the step, the argument is one of those that are filled in
      have hargs' : ∀ k, ∀ w ∈ Function.update args n (some value.toList) k, Clean w := by
        intro k w hw
        rw [Function.update_apply] at hw
        split at hw
        · exact Option.some.inj hw ▸ hvalue
        · exact hargs k w hw
      have hleft' : ∀ k, k ∈ ns ↔ k ∈ (pieces cs).filterMap Piece.number? ∧
          Function.update args n (some value.toList) k = none := by
        intro k
        rw [Function.update_apply]
        by_cases hk : k = n
        · rw [if_pos hk, hk]
          exact iff_of_false hnew fun h => Option.some_ne_none _ h.2
        · rw [if_neg hk, ← hleft, List.mem_cons, or_iff_right hk]
      have hsame : ∀ k, (argument? ns values k).or
            (Function.update args n (some value.toList) k) =
          (argument? (n :: ns) (value :: values) k).or (args k) := by
        intro k
        rw [argument?_cons, Function.update_apply]
        by_cases hk : k = n
        · rw [if_pos hk, if_pos hk, hk, argument?_eq_none hnew, Option.none_or, Option.some_or]
        · rw [if_neg hk, if_neg hk]
      rw [hmin]
      simp only [ih hvalues hargs' hrising hleft', hsame]

end Arguments

/-- **Clean arguments are filled in all at once.**  The pieces of a text make up the text, and
the numbers of its markers, each taken once, rise; the arguments go to the markers of these
numbers in their order, and nothing else changes.  Arguments beyond the last number have no
effect. -/
theorem fillAll_eq_substitute (template : String) {values : List String}
    (h : ∀ value ∈ values, Clean value.toList) :
    render (pieces template.toList) = template.toList ∧
      (numberSet template).Pairwise (· < ·) ∧
      (∀ n, n ∈ numberSet template ↔ n ∈ numbers template) ∧
      fillAll template values = String.ofList ((pieces template.toList).flatMap fun p =>
        (p.number?.bind (argument? (numberSet template) values)).getD p.text) ∧
      fillAll template (values.take (numberSet template).length) = fillAll template values := by
  obtain ⟨hrising, hmem⟩ := numberSet_spec template
  have hfill : ∀ {values : List String}, (∀ value ∈ values, Clean value.toList) →
      fillAll template values =
        String.ofList (substitute (argument? (numberSet template) values) template.toList) := by
    intro values h
    have hnone : ∀ n, ∀ value ∈ (fun _ => none : Nat → Option (List Char)) n, Clean value :=
      fun _ _ hvalue => nomatch hvalue
    have hleft : ∀ n, n ∈ numberSet template ↔
        n ∈ (pieces template.toList).filterMap Piece.number? ∧
          (fun _ => none : Nat → Option (List Char)) n = none := fun n => by
      rw [hmem, and_iff_left rfl]
      rfl
    have hfold := foldl_fill_substitute h hnone hrising hleft
    rw [substitute_none, String.ofList_toList] at hfold
    simp only [Option.or_none] at hfold
    exact hfold
  refine ⟨render_pieces _, hrising, hmem, hfill h, ?_⟩
  rw [hfill h, hfill fun value hvalue => h value (List.mem_of_mem_take hvalue), argument?_take]

/-- Markers next to each other, behind a percent sign and before a digit, and more arguments than
markers. -/
theorem fillAll_crowded :
    (∀ value ∈ ["x1", "(2)", "y", "z"], Clean value.toList) ∧
      fillAll "%%1%01%L3%%271%n" ["x1", "(2)", "y", "z"] = "%x1x1(2)%y1%n" := by
  have hclean : ∀ value ∈ ["x1", "(2)", "y", "z"], Clean value.toList := by decide +kernel
  have hnumbers : numbers "%%1%01%L3%%271%n" = [1, 1, 3, 27] := by decide +kernel
  have hset : numberSet "%%1%01%L3%%271%n" = [1, 3, 27] := by
    rw [numberSet, hnumbers, List.mergeSort_of_pairwise (by decide)]
    decide
  refine ⟨hclean, ?_⟩
  rw [(fillAll_eq_substitute "%%1%01%L3%%271%n" hclean).2.2.2.1, hset]
  decide +kernel

/-- An argument that begins with a digit makes a marker of what is before it. -/
example : fillAll "%2%1" ["1", "x"] = "x" := by decide +kernel

end Template
end Linguist
