import Ydsh.Glob.Fragments
import Ydsh.Library.Wildcard

/-
  Which names a component of a pattern accepts.

  The matcher keeps one place to go back to, after the last
  star it passed.

  Main declarations:
    * `Accepts`
    * `decides`
    * `wildMatch_exact`
-/

----
-- Components
----

namespace Ydsh

namespace Glob

open Library
open Library.Faulting

/- A file name, without the null character that ends it. -/
structure FileName where
  bytes : List UInt8
  noNull : 0 ∉ bytes

def Symbol.IsStar (symbol : Symbol) : Prop :=
  symbol = .wildcard .ZERO_OR_MORE

/- The bytes that a symbol other than a star matches. -/
def Symbol.Fits : Symbol → UInt8 → Prop
  | .lit ch, byte => byte = ch
  | .wildcard .ANY, _ => True
  | .wildcard .ZERO_OR_MORE, _ => False

abbrev Symbol.Match : List Symbol → List UInt8 → Prop :=
  Matches Symbol.IsStar Symbol.Fits

/- The symbols up to the next separator. -/
def component (pattern : List Symbol) : List Symbol :=
  pattern.takeWhile (· ≠ .lit SLASH)

def afterComponent (pattern : List Symbol) : List Symbol :=
  pattern.dropWhile (· ≠ .lit SLASH)

/-
  The names a component stands for.  The dot names are matched
  by themselves alone; a leading dot of another name by a dot,
  unless the option says otherwise.
-/
def Accepts
    (option : GlobMatchOption)
    (symbols : List Symbol)
    (name : List UInt8) : Prop :=
  if name = [DOT] then
    symbols = [.lit DOT]
  else if name = [DOT, DOT] then
    symbols = [.lit DOT, .lit DOT]
  else
    Symbol.Match symbols name ∧
      (name.head? = some DOT → option.DOTGLOB = false →
        symbols.head? = some (.lit DOT))

/-
  From some bound on, a run ends.  It accepts if and only if
  it should, and then the iterator is where it should be.
-/
def Settles
    {ι : Type}
    (Place : ι → Prop)
    (run : Nat → Faulting (WildMatchResult × ι))
    (accepted : Prop) : Prop :=
  ∃ enough, ∀ bound, enough ≤ bound →
    ∃ result after,
      run bound = .done (result, after) ∧
        (result ≠ .FAILED ↔ accepted) ∧
        (result ≠ .FAILED → Place after)

----
-- Runs
----

namespace Settles

variable {ι : Type}
variable {Place : ι → Prop}
variable {run next : Nat → Faulting (WildMatchResult × ι)}
variable {accepted other : Prop}

theorem failed
    {after : ι}
    (hRun : ∀ bound, run bound = .done (.FAILED, after))
    (hNot : ¬ accepted) :
    Settles Place run accepted :=
  ⟨0, fun bound _ =>
    ⟨.FAILED, after, hRun bound,
      ⟨fun hNe => absurd rfl hNe, fun hYes => absurd hYes hNot⟩,
      fun hNe => absurd rfl hNe⟩⟩

theorem matched
    {result : WildMatchResult}
    {after : ι}
    (hResult : result ≠ .FAILED)
    (hRun : ∀ bound, run bound = .done (result, after))
    (hPlace : Place after)
    (hYes : accepted) :
    Settles Place run accepted :=
  ⟨0, fun bound _ =>
    ⟨result, after, hRun bound,
      ⟨fun _ => hYes, fun _ => hResult⟩, fun _ => hPlace⟩⟩

/- A run that needs no rounds. -/
theorem decided
    {p : Prop}
    [Decidable p]
    {result : WildMatchResult}
    {after : ι}
    (old : ι)
    (hResult : result ≠ .FAILED)
    (hRun :
      ∀ bound,
        run bound =
          if p then .done (result, after)
          else .done (.FAILED, old))
    (hPlace : Place after)
    (hSame : accepted ↔ p) :
    Settles Place run accepted := by
  by_cases hCase : p
  · simp only [if_pos hCase] at hRun
    exact .matched hResult hRun hPlace (hSame.mpr hCase)
  · simp only [if_neg hCase] at hRun
    exact .failed hRun (mt hSame.mp hCase)

theorem congr
    (hRun : ∀ bound, run bound = next bound)
    (hNext : Settles Place next other)
    (hSame : accepted ↔ other) :
    Settles Place run accepted := by
  rw [show run = next from funext hRun, hSame]
  exact hNext

/- One round more. -/
theorem step
    (hRun : ∀ bound, run (bound + 1) = next bound)
    (hNext : Settles Place next other)
    (hSame : accepted ↔ other) :
    Settles Place run accepted := by
  rcases hNext with ⟨enough, hEnough⟩
  refine ⟨enough + 1, fun bound hBound => ?_⟩
  cases bound with
  | zero => exact absurd hBound (Nat.not_succ_le_zero _)
  | succ bound =>
      rw [hRun, hSame]
      exact hEnough bound (Nat.le_of_succ_le_succ hBound)

end Settles

----
-- Symbols in front of the Separator
----

/- A separator or the end comes next. -/
def Closed (rest : List Symbol) : Prop :=
  rest = [] ∨ rest.head? = some (.lit SLASH)

variable {option : GlobMatchOption}
variable {symbol : Symbol}
variable {symbols rest : List Symbol}

theorem isEndOrSep_closed
    (hRest : Closed rest) :
    isEndOrSep symbolPattern rest = .done true := by
  cases rest with
  | nil => rfl
  | cons first rest =>
      have hFirst : first = .lit SLASH := by
        simpa [Closed] using hRest
      rw [hFirst]
      rfl

theorem isEndOrSep_cons
    (hSep : symbol ≠ .lit SLASH) :
    isEndOrSep symbolPattern (symbol :: rest) = .done false := by
  cases symbol with
  | lit ch =>
      have hNe : ch ≠ SLASH := fun hSame => hSep (by rw [hSame])
      show Faulting.done (decide (ch = SLASH)) = _
      rw [decide_eq_false hNe]
  | wildcard kind => rfl

theorem isStar_iff :
    symbolPattern.isZeroOrMore (symbol :: rest) = true ↔
      symbol.IsStar := by
  cases symbol with
  | lit ch => simp [symbolPattern, Symbol.isMeta, Symbol.IsStar]
  | wildcard kind =>
      simp [symbolPattern, Symbol.isMeta, Symbol.IsStar]

/- What the matcher compares, for a byte that is not null. -/
theorem fits_iff
    (symbol : Symbol)
    (rest : List Symbol)
    {ch : UInt8}
    (hNull : ch ≠ 0) :
    ∃ c,
      symbolPattern.deref (symbol :: rest) = .done c ∧
        ((ch = c ∨ symbolPattern.isAny (symbol :: rest) = true) ↔
          symbol.Fits ch) := by
  cases symbol with
  | lit c =>
      refine ⟨c, rfl, ?_⟩
      simp [symbolPattern, Symbol.isMeta, Symbol.Fits]
  | wildcard kind =>
      refine ⟨0, rfl, ?_⟩
      cases kind <;>
        simp [symbolPattern, Symbol.isMeta, Symbol.Fits, hNull]

theorem not_fits_star
    {ch : UInt8}
    (hStar : symbol.IsStar) :
    ¬ symbol.Fits ch := by
  rw [hStar]
  exact id

/- The stars left at the end of the name. -/
theorem finishMatch_settles
    (hRest : Closed rest)
    (hSep : .lit SLASH ∉ symbols) :
    Settles (· = rest)
      (fun bound =>
        finishMatch symbolPattern bound (symbols ++ rest))
      (Symbol.Match symbols []) := by
  induction symbols with
  | nil =>
      refine ⟨1, fun bound hBound => ?_⟩
      cases bound with
      | zero => exact absurd hBound (Nat.not_succ_le_zero _)
      | succ bound =>
          refine
            ⟨.MATCHED, rest, ?_,
              ⟨fun _ => .nil, fun _ => by decide⟩,
              fun _ => rfl⟩
          simp only [List.nil_append, finishMatch,
            isEndOrSep_closed hRest]
          rfl
  | cons symbol symbols ih =>
      rw [List.mem_cons, not_or] at hSep
      have hRound :
          ∀ bound,
            finishMatch symbolPattern (bound + 1)
                (symbol :: symbols ++ rest) =
              if symbolPattern.isZeroOrMore
                  (symbol :: (symbols ++ rest)) then
                finishMatch symbolPattern bound (symbols ++ rest)
              else
                .done (.FAILED, symbol :: symbols ++ rest) := by
        intro bound
        rw [List.cons_append, finishMatch,
          isEndOrSep_cons (Ne.symm hSep.1)]
        rfl
      by_cases hStar : symbol.IsStar
      · refine
          .step ?_ (ih hSep.2)
            (Matches.star_nil_iff hStar)
        intro bound
        rw [hRound, if_pos (isStar_iff.mpr hStar)]
      · have hFailed :
            Settles (· = rest)
              (fun _ : Nat =>
                .done
                  (WildMatchResult.FAILED,
                    symbol :: symbols ++ rest))
              (Symbol.Match (symbol :: symbols) []) :=
          .failed (fun _ => rfl) (Matches.one_nil hStar)
        refine .step (fun bound => ?_) hFailed Iff.rfl
        rw [hRound, if_neg (mt isStar_iff.mp hStar)]

----
-- Rounds after a Star
----

section Rounds

variable {bound : Nat}
variable {ch : UInt8}
variable {name cp : List UInt8}
variable {old : List Symbol}

theorem round_end
    (hRest : Closed rest) :
    matchAfterStar symbolPattern (bound + 1) (ch :: name) cp old
        rest =
      matchAfterStar symbolPattern bound cp cp.tail old old := by
  simp only [matchAfterStar, isEndOrSep_closed hRest]
  rfl

theorem round_fits
    (hSep : symbol ≠ .lit SLASH)
    (hNull : ch ≠ 0)
    (hFits : symbol.Fits ch) :
    matchAfterStar symbolPattern (bound + 1) (ch :: name) cp old
        (symbol :: rest) =
      matchAfterStar symbolPattern bound name cp old rest := by
  rcases fits_iff symbol rest hNull with ⟨c, hDeref, hSame⟩
  simp only [matchAfterStar, isEndOrSep_cons hSep, hDeref,
    bind_done, Bool.false_eq_true, if_false,
    if_pos (hSame.mpr hFits)]
  rfl

theorem round_star
    (hNull : ch ≠ 0)
    (hStar : symbol.IsStar) :
    matchAfterStar symbolPattern (bound + 1) (ch :: name) cp old
        (symbol :: rest) =
      (isEndOrSep symbolPattern rest).bind fun ends =>
        if ends then
          .done (.MATCHED, rest)
        else
          matchAfterStar symbolPattern bound (ch :: name) name
            rest rest := by
  have hSep : symbol ≠ .lit SLASH := by
    rw [hStar]
    exact Symbol.noConfusion
  rcases fits_iff symbol rest hNull with ⟨c, hDeref, hSame⟩
  simp only [matchAfterStar, isEndOrSep_cons hSep, hDeref,
    bind_done, Bool.false_eq_true, if_false,
    if_neg (mt hSame.mp (not_fits_star hStar)),
    if_pos (isStar_iff.mpr hStar)]
  rfl

/- A star at the end of the component matches all there is. -/
theorem round_lastStar
    (hRest : Closed rest)
    (hNull : ch ≠ 0)
    (hStar : symbol.IsStar) :
    matchAfterStar symbolPattern (bound + 1) (ch :: name) cp old
        (symbol :: rest) =
      .done (.MATCHED, rest) := by
  rw [round_star hNull hStar, isEndOrSep_closed hRest]
  rfl

theorem round_nextStar
    {next : Symbol}
    (hNext : next ≠ .lit SLASH)
    (hNull : ch ≠ 0)
    (hStar : symbol.IsStar) :
    matchAfterStar symbolPattern (bound + 1) (ch :: name) cp old
        (symbol :: next :: rest) =
      matchAfterStar symbolPattern bound (ch :: name) name
        (next :: rest) (next :: rest) := by
  rw [round_star hNull hStar, isEndOrSep_cons hNext]
  rfl

theorem round_neither
    (hSep : symbol ≠ .lit SLASH)
    (hNull : ch ≠ 0)
    (hFits : ¬ symbol.Fits ch)
    (hStar : ¬ symbol.IsStar) :
    matchAfterStar symbolPattern (bound + 1) (ch :: name) cp old
        (symbol :: rest) =
      matchAfterStar symbolPattern bound cp cp.tail old old := by
  rcases fits_iff symbol rest hNull with ⟨c, hDeref, hSame⟩
  simp only [matchAfterStar, isEndOrSep_cons hSep, hDeref,
    bind_done, Bool.false_eq_true, if_false,
    if_neg (mt hSame.mp hFits),
    if_neg (mt isStar_iff.mp hStar)]

end Rounds

/-
  After a star: the symbols between the star and the iterator
  match what was passed since the place of the last try.
-/
structure Tried
    (star : Symbol)
    (between symbols : List Symbol)
    (matched name : List UInt8) : Prop where
  star : star.IsStar
  noSep : .lit SLASH ∉ between ++ symbols
  noNull : 0 ∉ matched ++ name
  single : Single Symbol.IsStar Symbol.Fits between matched

/- The loop from there decides what the star may still match. -/
def Decides
    (rest : List Symbol)
    (star : Symbol)
    (between symbols : List Symbol)
    (matched name : List UInt8) : Prop :=
  Settles (· = rest)
    (fun bound =>
      matchAfterStar symbolPattern bound name
        (matched ++ name).tail (between ++ symbols ++ rest)
        (symbols ++ rest))
    (Symbol.Match (star :: (between ++ symbols))
      (matched ++ name))

section Decides

variable {star : Symbol}
variable {between : List Symbol}
variable {matched name : List UInt8}

/- A try begins with no symbol passed. -/
theorem Tried.begin
    (hStar : star.IsStar)
    (hSep : .lit SLASH ∉ symbols)
    (hNull : 0 ∉ name) :
    Tried star [] symbols [] name where
  star := hStar
  noSep := hSep
  noNull := hNull
  single := .nil

theorem Tried.more
    {ch : UInt8}
    (hTried :
      Tried star between (symbol :: symbols) matched
        (ch :: name))
    (hOne : ¬ symbol.IsStar)
    (hFits : symbol.Fits ch) :
    Tried star (between ++ [symbol]) symbols (matched ++ [ch])
      name where
  star := hTried.star
  noSep := by
    rw [← List.append_cons]
    exact hTried.noSep
  noNull := by
    rw [← List.append_cons]
    exact hTried.noNull
  single :=
    List.rel_append hTried.single (.cons ⟨hOne, hFits⟩ .nil)

theorem Decides.finish
    (hRest : Closed rest)
    (hTried : Tried star between symbols matched []) :
    Decides rest star between symbols matched [] := by
  unfold Decides
  rw [List.append_nil]
  refine
    .step (fun bound => ?_)
      (finishMatch_settles hRest
        (fun hMem =>
          hTried.noSep (List.mem_append_right _ hMem)))
      (Matches.finish_iff hTried.star hTried.single)
  simp only [matchAfterStar]

/- Where the symbols do not match, the next place is tried. -/
theorem Decides.retreat
    (hTried : Tried star between symbols matched name)
    (hNot : ¬ Symbol.Match symbols name)
    (hRun :
      ∀ bound,
        matchAfterStar symbolPattern (bound + 1) name
            (matched ++ name).tail (between ++ symbols ++ rest)
            (symbols ++ rest) =
          matchAfterStar symbolPattern bound
            (matched ++ name).tail (matched ++ name).tail.tail
            (between ++ symbols ++ rest)
            (between ++ symbols ++ rest))
    (hLater :
      Decides rest star [] (between ++ symbols) []
        (matched ++ name).tail) :
    Decides rest star between symbols matched name :=
  .step hRun hLater
    (Matches.retreat_iff hTried.star
      (mt (Matches.append_iff hTried.single).mp hNot))

/- A round at a star: what was kept before is given up. -/
theorem settles_star
    {ch : UInt8}
    (cp : List UInt8)
    (old : List Symbol)
    (hRest : Closed rest)
    (hStar : symbol.IsStar)
    (hSep : .lit SLASH ∉ symbols)
    (hNull : 0 ∉ ch :: name)
    (hNext :
      Tried symbol [] symbols [] (ch :: name) →
        Decides rest symbol [] symbols [] (ch :: name)) :
    Settles (· = rest)
      (fun bound =>
        matchAfterStar symbolPattern bound (ch :: name) cp old
          (symbol :: symbols ++ rest))
      (Symbol.Match (symbol :: symbols) (ch :: name)) := by
  have hByte : ch ≠ 0 := fun hSame =>
    hNull (hSame ▸ List.mem_cons_self)
  cases symbols with
  | nil =>
      have hAll : Symbol.Match [symbol] (ch :: name) :=
        (Matches.many_iff hStar).mpr
          ⟨[], List.nil_suffix, .nil⟩
      exact
        .step (fun bound => round_lastStar hRest hByte hStar)
          (.matched (by decide) (fun _ => rfl) rfl hAll) Iff.rfl
  | cons next symbols =>
      have hSlash : next ≠ .lit SLASH := fun hSlash =>
        hSep (hSlash ▸ List.mem_cons_self)
      exact
        .step (fun bound => round_nextStar hSlash hByte hStar)
          (hNext (.begin hStar hSep hNull)) Iff.rfl

/-
  The loop decides.  The symbols after the star become fewer
  at another star, the bytes since the star at another try,
  and the bytes left in any other round.
-/
theorem decides
    (hRest : Closed rest)
    (hTried : Tried star between symbols matched name) :
    Decides rest star between symbols matched name := by
  induction hSymbols : (between ++ symbols).length
    using Nat.strong_induction_on
    generalizing star between symbols matched name with
  | _ size fewer =>
  induction hBytes : (matched ++ name).length
    using Nat.strong_induction_on
    generalizing between symbols matched name with
  | _ bytes later =>
  induction name generalizing between symbols matched with
  | nil => exact .finish hRest hTried
  | cons ch name more =>
      have hByte : ch ≠ 0 := fun hSame =>
        hTried.noNull
          (List.mem_append_right _
            (hSame ▸ List.mem_cons_self))
      have hLater :
          Decides rest star [] (between ++ symbols) []
            (matched ++ ch :: name).tail := by
        apply later _ _ (.begin hTried.star hTried.noSep _)
          hSymbols rfl
        · rw [← hBytes, List.nil_append, List.length_tail,
            List.length_append, List.length_cons]
          omega
        · intro hMem
          exact hTried.noNull (List.mem_of_mem_tail hMem)
      cases symbols with
      | nil =>
          exact
            .retreat hTried
              (mt Matches.nil_iff.mp (List.cons_ne_nil _ _))
              (fun bound => round_end hRest) hLater
      | cons symbol symbols =>
          have hSlash : symbol ≠ .lit SLASH := fun hSame =>
            hTried.noSep
              (List.mem_append_right _
                (hSame ▸ List.mem_cons_self))
          by_cases hStar : symbol.IsStar
          · have hSame :
                Symbol.Match
                    (star :: (between ++ symbol :: symbols))
                    (matched ++ ch :: name) ↔
                  Symbol.Match (symbol :: symbols)
                    (ch :: name) :=
              Matches.advance_iff hTried.star hStar
                hTried.single
            refine
              .congr (fun _ => rfl)
                (settles_star _ _ hRest hStar
                  (fun hMem =>
                    hTried.noSep
                      (List.mem_append_right _
                        (List.mem_cons_of_mem _ hMem)))
                  (fun hMem =>
                    hTried.noNull
                      (List.mem_append_right _ hMem))
                  fun hNext => ?_)
                hSame
            apply fewer _ _ hNext rfl
            rw [← hSymbols, List.nil_append,
              List.length_append, List.length_cons]
            omega
          · by_cases hFits : symbol.Fits ch
            · have hMore :=
                more (hTried.more hStar hFits)
                  (by rw [← List.append_cons]; exact hSymbols)
                  (by rw [← List.append_cons]; exact hBytes)
              unfold Decides at hMore
              rw [← List.append_cons between,
                ← List.append_cons matched] at hMore
              exact
                .step
                  (fun bound => round_fits hSlash hByte hFits)
                  hMore Iff.rfl
            · exact
                .retreat hTried
                  (fun hMatches =>
                    hFits
                      ((Matches.one_cons_iff hStar).mp
                        hMatches).1)
                  (fun bound =>
                    round_neither hSlash hByte hFits hStar)
                  hLater

end Decides

----
-- Whole Names
----

section Names

variable {name : List UInt8}

/- The byte at the front of a component. -/
theorem deref_component
    (hRest : Closed rest) :
    ∃ c,
      symbolPattern.deref (symbols ++ rest) = .done c ∧
        (c = DOT ↔ symbols.head? = some (.lit DOT)) := by
  cases symbols with
  | nil =>
      rcases hRest with rfl | hRest
      · exact ⟨0, rfl, by decide⟩
      · rcases List.head?_eq_some_iff.mp hRest with ⟨more, rfl⟩
        exact ⟨SLASH, rfl, by decide⟩
  | cons symbol symbols =>
      cases symbol with
      | lit c => exact ⟨c, rfl, by simp⟩
      | wildcard kind =>
          exact ⟨0, rfl, by simp [DOT]⟩

theorem accepts_other
    (hCurrent : name ≠ [DOT])
    (hParent : name ≠ [DOT, DOT]) :
    Accepts option symbols name ↔
      Symbol.Match symbols name ∧
        (name.head? = some DOT → option.DOTGLOB = false →
          symbols.head? = some (.lit DOT)) := by
  unfold Accepts
  rw [if_neg hCurrent, if_neg hParent]

variable (hRest : Closed rest)
variable (hSep : .lit SLASH ∉ symbols)

include hRest hSep

theorem matchBeforeStar_settles
    (hNull : 0 ∉ name) :
    Settles (· = rest)
      (fun bound =>
        matchBeforeStar symbolPattern bound name
          (symbols ++ rest))
      (Symbol.Match symbols name) := by
  induction name generalizing symbols with
  | nil => exact finishMatch_settles hRest hSep
  | cons ch name ih =>
      have hByte : ch ≠ 0 := fun hSame =>
        hNull (hSame ▸ List.mem_cons_self)
      cases symbols with
      | nil =>
          apply Settles.failed
          · intro bound
            simp only [List.nil_append, matchBeforeStar,
              isEndOrSep_closed hRest]
            rfl
          · exact mt Matches.nil_iff.mp (List.cons_ne_nil _ _)
      | cons symbol symbols =>
          have hSlash : symbol ≠ .lit SLASH := fun hSame =>
            hSep (hSame ▸ List.mem_cons_self)
          have hMore : .lit SLASH ∉ symbols := fun hMem =>
            hSep (List.mem_cons_of_mem _ hMem)
          by_cases hStar : symbol.IsStar
          · refine
              .congr (fun bound => ?_)
                (settles_star [] symbolPattern.last hRest
                  hStar hMore hNull (decides hRest))
                Iff.rfl
            simp only [List.cons_append, matchBeforeStar,
              isEndOrSep_cons hSlash, bind_done,
              Bool.false_eq_true, if_false,
              if_pos (isStar_iff.mpr hStar)]
          · rcases fits_iff symbol (symbols ++ rest) hByte with
              ⟨c, hDeref, hSame⟩
            have hRun :
                ∀ bound,
                  matchBeforeStar symbolPattern bound
                      (ch :: name) (symbol :: symbols ++ rest) =
                    if ch ≠ c ∧
                        symbolPattern.isAny
                            (symbol :: (symbols ++ rest)) =
                          false then
                      .done (.FAILED, symbol :: symbols ++ rest)
                    else
                      matchBeforeStar symbolPattern bound name
                        (symbols ++ rest) := by
              intro bound
              simp only [List.cons_append, matchBeforeStar,
                isEndOrSep_cons hSlash, hDeref, bind_done,
                Bool.false_eq_true, if_false,
                if_neg (mt isStar_iff.mp hStar)]
              rfl
            by_cases hFits : symbol.Fits ch
            · refine
                .congr (fun bound => ?_)
                  (ih hMore
                    fun hMem =>
                      hNull (List.mem_cons_of_mem _ hMem))
                  ((Matches.one_cons_iff hStar).trans
                    (and_iff_right hFits))
              rw [hRun, if_neg]
              rintro ⟨hNe, hAny⟩
              rcases hSame.mpr hFits with hEq | hTrue
              · exact hNe hEq
              · rw [hAny] at hTrue
                cases hTrue
            · apply Settles.failed
              · intro bound
                rw [hRun, if_pos]
                rw [← Bool.not_eq_true, ← not_or]
                exact mt hSame.mp hFits
              · exact fun hMatches =>
                  hFits
                    ((Matches.one_cons_iff hStar).mp hMatches).1

theorem isEndOrSep_component :
    isEndOrSep symbolPattern (symbols ++ rest) =
      .done symbols.isEmpty := by
  cases symbols with
  | nil => exact isEndOrSep_closed hRest
  | cons symbol symbols =>
      exact
        isEndOrSep_cons fun hSame =>
          hSep (hSame ▸ List.mem_cons_self)

theorem matchSecondDot_component
    (old : List Symbol) :
    matchSecondDot symbolPattern [DOT] old (symbols ++ rest) =
      .done
        (if symbols = [.lit DOT] then (2, rest) else (0, old)) := by
  rcases @deref_component symbols rest hRest with
    ⟨c, hDeref, hDot⟩
  simp only [matchSecondDot, hDeref, bind_done, List.head?_cons,
    List.tail_cons, if_pos]
  by_cases hFirst : c = DOT
  · rcases List.head?_eq_some_iff.mp (hDot.mp hFirst) with
      ⟨more, rfl⟩
    have hMore := @isEndOrSep_component more rest hRest
      fun hMem => hSep (List.mem_cons_of_mem _ hMem)
    rw [if_pos hFirst]
    show (isEndOrSep symbolPattern (more ++ rest)).map _ = _
    rw [hMore]
    cases more <;> rfl
  · rw [if_neg hFirst, if_neg]
    rintro rfl
    exact hFirst (hDot.mpr rfl)

theorem matchDots_current :
    matchDots symbolPattern [DOT] (symbols ++ rest) =
      .done
        (if symbols = [.lit DOT] then (1, rest)
          else (0, symbols ++ rest)) := by
  rcases @deref_component symbols rest hRest with
    ⟨c, hDeref, hDot⟩
  simp only [matchDots, hDeref, bind_done, List.head?_cons,
    List.tail_cons, if_pos]
  by_cases hFirst : c = DOT
  · rcases List.head?_eq_some_iff.mp (hDot.mp hFirst) with
      ⟨more, rfl⟩
    have hMore := @isEndOrSep_component more rest hRest
      fun hMem => hSep (List.mem_cons_of_mem _ hMem)
    rw [if_pos hFirst]
    show (isEndOrSep symbolPattern (more ++ rest)).bind _ = _
    rw [hMore]
    cases more <;> rfl
  · rw [if_neg hFirst, if_neg]
    rintro rfl
    exact hFirst (hDot.mpr rfl)

theorem matchDots_parent :
    matchDots symbolPattern [DOT, DOT] (symbols ++ rest) =
      .done
        (if symbols = [.lit DOT, .lit DOT] then (2, rest)
          else (0, symbols ++ rest)) := by
  rcases @deref_component symbols rest hRest with
    ⟨c, hDeref, hDot⟩
  simp only [matchDots, hDeref, bind_done, List.head?_cons,
    List.tail_cons, if_pos]
  by_cases hFirst : c = DOT
  · rcases List.head?_eq_some_iff.mp (hDot.mp hFirst) with
      ⟨more, rfl⟩
    have hSecond :=
      @matchSecondDot_component more rest hRest
        (fun hMem => hSep (List.mem_cons_of_mem _ hMem))
        (.lit DOT :: more ++ rest)
    rw [if_pos hFirst]
    show matchSecondDot symbolPattern [DOT] _ (more ++ rest) = _
    rw [hSecond]
    simp only [List.cons.injEq, true_and]
  · rw [if_neg hFirst, if_neg]
    rintro rfl
    exact hFirst (hDot.mpr rfl)

theorem hidesDot_component :
    hidesDot symbolPattern option (symbols ++ rest) =
      .done
        (! symbols.isEmpty &&
          (decide (symbols.head? ≠ some (.lit DOT)) &&
            ! option.DOTGLOB)) := by
  rcases @deref_component symbols rest hRest with
    ⟨c, hDeref, hDot⟩
  unfold hidesDot
  rw [isEndOrSep_component hRest hSep, hDeref]
  cases symbols with
  | nil => rfl
  | cons symbol symbols =>
      simp only [bind_done, map_done, List.isEmpty_cons,
        Bool.false_eq_true, if_false, ne_eq, hDot,
        Bool.not_false, Bool.true_and]

/- A name with a leading dot that is no dot name. -/
theorem wildMatch_leadingDot
    (hNull : 0 ∉ name)
    (hCurrent : name ≠ [DOT])
    (hParent : name ≠ [DOT, DOT])
    (hLead : name.head? = some DOT) :
    Settles (· = rest)
      (fun bound =>
        wildMatch symbolPattern option bound name
          (symbols ++ rest))
      (Accepts option symbols name) := by
  have hAccepts :=
    @accepts_other option symbols name hCurrent hParent
  have hRun :
      ∀ bound,
        wildMatch symbolPattern option bound name
            (symbols ++ rest) =
          if ! symbols.isEmpty &&
              (decide (symbols.head? ≠ some (.lit DOT)) &&
                ! option.DOTGLOB) then
            .done (.FAILED, symbols ++ rest)
          else
            matchBeforeStar symbolPattern bound name
              (symbols ++ rest) := by
    intro bound
    unfold wildMatch
    rw [if_neg (not_or.mpr ⟨hCurrent, hParent⟩),
      if_pos hLead, hidesDot_component hRest hSep]
    rfl
  by_cases hHidden :
    (! symbols.isEmpty &&
      (decide (symbols.head? ≠ some (.lit DOT)) &&
        ! option.DOTGLOB)) = true
  · have hFailed :
        ∀ bound,
          wildMatch symbolPattern option bound name
              (symbols ++ rest) =
            .done (.FAILED, symbols ++ rest) := by
      intro bound
      rw [hRun, if_pos hHidden]
    refine .failed hFailed fun hYes => ?_
    simp only [Bool.and_eq_true, decide_eq_true_eq,
      Bool.not_eq_true'] at hHidden
    exact
      hHidden.2.1
        ((hAccepts.mp hYes).2 hLead hHidden.2.2)
  · refine
      .congr (fun bound => ?_)
        (matchBeforeStar_settles hRest hSep hNull)
        (hAccepts.trans (and_iff_left_of_imp ?_))
    · rw [hRun, if_neg hHidden]
    · intro hMatch _ hOption
      cases symbols with
      | nil =>
          rw [Matches.nil_iff.mp hMatch] at hLead
          cases hLead
      | cons symbol symbols =>
          simp only [List.isEmpty_cons, Bool.not_false,
            Bool.true_and, hOption, Bool.and_true,
            decide_eq_true_eq, not_not] at hHidden
          exact hHidden

/- One call of the matcher, on a component. -/
theorem wildMatch_settles
    (hNull : 0 ∉ name) :
    Settles (· = rest)
      (fun bound =>
        wildMatch symbolPattern option bound name
          (symbols ++ rest))
      (Accepts option symbols name) := by
  by_cases hCurrent : name = [DOT]
  · have hAccepts :
        Accepts option symbols name ↔ symbols = [.lit DOT] := by
      unfold Accepts
      rw [if_pos hCurrent]
    refine
      .decided (symbols ++ rest)
        (show WildMatchResult.DOT ≠ .FAILED by decide)
        (fun bound => ?_) rfl hAccepts
    unfold wildMatch
    rw [if_pos (Or.inl hCurrent), hCurrent,
      matchDots_current hRest hSep]
    split_ifs <;> rfl
  · by_cases hParent : name = [DOT, DOT]
    · have hAccepts :
          Accepts option symbols name ↔
            symbols = [.lit DOT, .lit DOT] := by
        unfold Accepts
        rw [if_neg hCurrent, if_pos hParent]
      refine
        .decided (symbols ++ rest)
          (show WildMatchResult.DOTDOT ≠ .FAILED by decide)
          (fun bound => ?_) rfl hAccepts
      unfold wildMatch
      rw [if_pos (Or.inr hParent), hParent,
        matchDots_parent hRest hSep]
      split_ifs <;> rfl
    · by_cases hLead : name.head? = some DOT
      · exact
          wildMatch_leadingDot hRest hSep hNull hCurrent
            hParent hLead
      · refine
          .congr (fun bound => ?_)
            (matchBeforeStar_settles hRest hSep hNull)
            ((accepts_other hCurrent hParent).trans
              (and_iff_left fun hYes => absurd hYes hLead))
        unfold wildMatch
        rw [if_neg (not_or.mpr ⟨hCurrent, hParent⟩),
          if_neg hLead]

end Names

----
-- Patterns
----

theorem closed_afterComponent
    (pattern : List Symbol) :
    Closed (afterComponent pattern) := by
  induction pattern with
  | nil => exact Or.inl rfl
  | cons symbol pattern ih =>
      unfold afterComponent
      by_cases hSlash : symbol = .lit SLASH
      · right
        rw [List.dropWhile_cons_of_neg (by simpa using hSlash),
          hSlash]
        rfl
      · rw [List.dropWhile_cons_of_pos (by simpa using hSlash)]
        exact ih

theorem not_mem_component
    (pattern : List Symbol) :
    .lit SLASH ∉ component pattern := by
  intro hMem
  have hAll := List.all_eq_true.mp List.all_takeWhile _ hMem
  simp at hAll

/-
  For every iterator that stands for a pattern, the matcher
  ends; it accepts the names that the component at the front
  of the pattern stands for, and no others; and when it
  accepts, the iterator stands for the rest of the pattern.
-/
theorem wildMatch_exact
    {ι : Type}
    {P : Pattern ι}
    {R : ι → List Symbol → Prop}
    (hSim : Simulates R P symbolPattern)
    (option : GlobMatchOption)
    (name : FileName)
    {it : ι}
    {pattern : List Symbol}
    (hRel : R it pattern) :
    Settles (fun after => R after (afterComponent pattern))
      (fun bound => wildMatch P option bound name.bytes it)
      (Accepts option (component pattern) name.bytes) := by
  have hSettles :=
    @wildMatch_settles option (component pattern)
      (afterComponent pattern) name.bytes
      (closed_afterComponent pattern)
      (not_mem_component pattern) name.noNull
  rw [component, afterComponent,
    List.takeWhile_append_dropWhile] at hSettles
  rcases hSettles with ⟨enough, hEnough⟩
  refine ⟨enough, fun bound hBound => ?_⟩
  have hEnds := hEnough bound hBound
  dsimp only at hEnds
  rcases hEnds with ⟨result, rest, hRun, hSame, hPlace⟩
  have hAgree := hSim.wildMatch option bound name.bytes hRel
  rw [hRun] at hAgree
  cases hValue : wildMatch P option bound name.bytes it with
  | done found =>
      rw [hValue] at hAgree
      cases hAgree with
      | done hFound =>
          rcases hFound with ⟨hResult, hAfter⟩
          refine
            ⟨found.1, found.2, hValue, hResult ▸ hSame, ?_⟩
          intro hAccepted
          rw [hResult] at hAccepted
          rw [hPlace hAccepted] at hAfter
          exact hAfter
  | fault | timeout =>
      rw [hValue] at hAgree
      cases hAgree

/- The name `ab` and the pattern `a*/`, as fragments. -/
theorem wildMatch_exact_fragments :
    Settles
      (fun after =>
        FragmentIter.Stands
          [.str [0x61], .wildcard .ZERO_OR_MORE, .str [0x2F]]
          after
          (afterComponent
            (symbolsOf
              [.str [0x61], .wildcard .ZERO_OR_MORE,
                .str [0x2F]])))
      (fun bound =>
        wildMatch
          (FragmentIter.pattern
            [.str [0x61], .wildcard .ZERO_OR_MORE, .str [0x2F]])
          ⟨false, false, false, false⟩ bound [0x61, 0x62]
          (FragmentIter.begin
            [.str [0x61], .wildcard .ZERO_OR_MORE,
              .str [0x2F]]))
      (Accepts ⟨false, false, false, false⟩
        (component
          (symbolsOf
            [.str [0x61], .wildcard .ZERO_OR_MORE,
              .str [0x2F]]))
        [0x61, 0x62]) :=
  wildMatch_exact
    (FragmentIter.simulates (by decide)
      (show Fragment.str [] ∉ _ by decide))
    ⟨false, false, false, false⟩ ⟨[0x61, 0x62], by decide⟩
    (FragmentIter.stands_begin
      (show Fragment.str [] ∉ _ by decide))

end Glob

end Ydsh
