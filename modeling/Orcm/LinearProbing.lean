import Mathlib.Data.Set.Card
import Mathlib.Logic.Equiv.Basic
import Orcm.Circular

/-!
Linear probing in a ring of cells: every cell between the home of an entry and its place is
occupied. When an entry is taken away, the entries behind it up to the next free cell are placed
again one by one. Seen from a free cell that stays free, the argument is about a line.
-/

namespace Orcm.LinearProbing

open Circular Function Option

/-- The first cell from a place on at which the search stops. -/
def scan (size : ℕ) (stop : ℕ → Bool) : ℕ → ℕ → Option ℕ
  | 0, _ => none
  | fuel + 1, start =>
    let place := if start = size then 0 else start
    if stop place then some place else scan size stop fuel (place + 1)

variable {place way next : ℕ}

theorem wrap_eq (inside : place ≤ size) : (if place = size then 0 else place) = place % size := by
  split
  · rename_i full
    rw [full, Nat.mod_self]
  · rw [Nat.mod_eq_of_lt (by omega)]

variable {start fuel gap removed : ℕ}

theorem position_position {size start : ℕ} :
    position size (position size start first) second = position size start (first + second) := by
  rw [position, position, position, Nat.mod_add_mod, Nat.add_assoc]

theorem position_wrap {size start : ℕ} :
    position size (start % size) way = position size start way := by
  rw [position, position, Nat.mod_add_mod]

theorem exists_position (some_cell : 0 < size) (start : ℕ) (inside : place < size) :
    ∃ way < size, position size start way = place := by
  have first := Nat.mod_lt start some_cell
  refine ⟨(place + size - start % size) % size, Nat.mod_lt _ some_cell, ?_⟩
  rw [← position_wrap, position, Nat.add_mod_mod]
  have total : start % size + (place + size - start % size) = place + size := by omega
  rw [total, Nat.add_mod_right, Nat.mod_eq_of_lt inside]

theorem scan_iff (some_cell : 0 < size) (inside : start ≤ size) :
    scan size stop fuel start = some found ↔
      ∃ way < fuel, position size start way = found ∧ stop found = true ∧
        ∀ before < way, stop (position size start before) = false := by
  induction fuel generalizing start with
  | zero => simp [scan]
  | succ fuel ih =>
    have next : start % size + 1 ≤ size := Nat.mod_lt start some_cell
    rw [scan]
    simp only [wrap_eq inside]
    cases here : stop (start % size) with
    | true =>
      rw [if_pos rfl, Option.some.injEq]
      constructor
      · rintro rfl
        exact ⟨0, Nat.succ_pos fuel, rfl, here, fun before less =>
          absurd less (Nat.not_lt_zero before)⟩
      · rintro ⟨way, -, rfl, -, passed⟩
        cases way with
        | zero => rfl
        | succ way => exact absurd (here.symm.trans (passed 0 (Nat.succ_pos way))) (by decide)
    | false =>
      have shifted (way : ℕ) :
          position size (start % size + 1) way = position size start (way + 1) := by
        rw [position_succ, position_wrap]
      rw [if_neg (by decide), ih next]
      constructor
      · rintro ⟨way, less, rfl, stops, passed⟩
        refine ⟨way + 1, Nat.succ_lt_succ less, (shifted way).symm, stops, ?_⟩
        intro before earlier
        cases before with
        | zero => exact here
        | succ before =>
          exact (congrArg stop (shifted before)).symm.trans
            (passed before (Nat.lt_of_succ_lt_succ earlier))
      · rintro ⟨way, less, rfl, stops, passed⟩
        cases way with
        | zero => exact absurd (here.symm.trans stops) (by decide)
        | succ way =>
          refine ⟨way, Nat.lt_of_succ_lt_succ less, shifted way, stops, ?_⟩
          intro before earlier
          rw [shifted]
          exact passed (before + 1) (Nat.succ_lt_succ earlier)

theorem scan_ends (some_cell : 0 < size) (stop : ℕ → Bool) (inside : start ≤ size)
    (less : way < size) (stops : stop (position size start way) = true) :
    ∃ first ≤ way, scan size stop size start = some (position size start first) ∧
      stop (position size start first) = true ∧ ∀ before < first,
        stop (position size start before) = false := by
  have exists_way : ∃ way, stop (position size start way) = true := ⟨way, stops⟩
  have least : Nat.find exists_way ≤ way := Nat.find_le stops
  have passed : ∀ before < Nat.find exists_way, stop (position size start before) = false :=
    fun before earlier => Bool.eq_false_iff.mpr (Nat.find_min exists_way earlier)
  refine ⟨Nat.find exists_way, least, ?_, Nat.find_spec exists_way, passed⟩
  exact (scan_iff some_cell inside).mpr ⟨_, least.trans_lt less, rfl,
    Nat.find_spec exists_way, passed⟩

variable {Entry : Type} {size : ℕ} {home : Entry → ℕ} {cells : ℕ → Option Entry}

/-- Every entry is reached from its home over occupied cells. -/
def Placed (size : ℕ) (home : Entry → ℕ) (cells : ℕ → Option Entry) : Prop :=
  ∀ place < size, ∀ entry, cells place = some entry →
    ∃ way < size, position size (home entry) way = place ∧
      ∀ before < way, cells (position size (home entry) before) ≠ none

theorem placed_empty {size : ℕ} : Placed size home fun _ => none := by
  intro place _ entry held
  cases held

theorem Placed.insert (placed : Placed size home cells) (entry : Entry) (less : way < size)
    (passed : ∀ before < way, cells (position size (home entry) before) ≠ none) :
    Placed size home (update cells (position size (home entry) way) (some entry)) := by
  have kept (place : ℕ) (held : cells place ≠ none) :
      update cells (position size (home entry) way) (some entry) place ≠ none := by
    by_cases same : place = position size (home entry) way
    · rw [same, update_self]
      exact some_ne_none entry
    · rwa [update_of_ne same]
  intro place inside other held
  by_cases same : place = position size (home entry) way
  · rw [same, update_self] at held
    cases held
    exact ⟨way, less, same.symm, fun before earlier => kept _ (passed before earlier)⟩
  · rw [update_of_ne same] at held
    obtain ⟨reach, short, reached, busy⟩ := placed place inside other held
    exact ⟨reach, short, reached, fun before earlier => kept _ (busy before earlier)⟩

/-- The ring as a line that begins at a cell: every entry from some place on lies behind its home,
and only the cells of a stretch may be free in between. With an empty stretch nothing is free. -/
def PlacedFrom (size : ℕ) (home : Entry → ℕ) (gap removed next : ℕ) (cells : ℕ → Option Entry) :
    Prop :=
  ∀ place < size, ∀ entry, cells (position size gap place) = some entry →
    ∃ start ≤ place, position size gap start = home entry ∧
      ∀ between, start ≤ between → between < place →
        cells (position size gap between) ≠ none ∨ next ≤ place ∧ removed ≤ between ∧ between < next

theorem Placed.line (placed : Placed size home cells) (some_cell : 0 < size)
    (homes : ∀ entry, home entry < size) (free : cells (position size gap 0) = none) (removed : ℕ) :
    PlacedFrom size home gap removed removed cells := by
  intro place inside entry held
  obtain ⟨way, less, reached, busy⟩ := placed _ (position_lt gap some_cell place) entry held
  obtain ⟨start, startInside, starts⟩ := exists_position some_cell gap (homes entry)
  have along (step : ℕ) : position size (home entry) step = position size gap (start + step) := by
    rw [← starts, position_position]
  have short : start + way < size := by
    by_contra long
    -- the way would go round to the free cell
    have round : position size (home entry) (size - start) = position size gap 0 := by
      rw [along, Nat.add_sub_cancel' (Nat.le_of_lt startInside), position_size]
    rcases Nat.lt_or_ge (size - start) way with earlier | later
    · exact busy _ earlier (by rw [round, free])
    · have same : way = size - start := by omega
      rw [← reached, same, round, free] at held
      cases held
  have same : start + way = place := by
    apply position_injective short inside
    rw [← along, reached]
  refine ⟨start, by omega, starts, ?_⟩
  intro between first last
  refine Or.inl ?_
  have occupied := busy (between - start) (by omega)
  rwa [along, Nat.add_sub_cancel' first] at occupied

theorem PlacedFrom.ring (line : PlacedFrom size home gap removed removed cells)
    (some_cell : 0 < size) :
    Placed size home cells := by
  intro cell inside entry held
  obtain ⟨place, placeInside, rfl⟩ := exists_position some_cell gap inside
  obtain ⟨start, less, starts, busy⟩ := line place placeInside entry held
  have along (step : ℕ) : position size (home entry) step = position size gap (start + step) := by
    rw [← starts, position_position]
  refine ⟨place - start, by omega, ?_, ?_⟩
  · rw [along, Nat.add_sub_cancel' less]
  · intro before earlier
    rw [along]
    rcases busy (start + before) (by omega) (by omega) with occupied | ⟨-, first, last⟩
    · exact occupied
    · omega

theorem PlacedFrom.finish {next : ℕ} (line : PlacedFrom size home gap removed next cells)
    (free : cells (position size gap next) = none) :
    PlacedFrom size home gap removed removed cells := by
  intro place inside entry held
  obtain ⟨start, less, starts, busy⟩ := line place inside entry held
  refine ⟨start, less, starts, ?_⟩
  intro between first last
  rcases busy between first last with occupied | ⟨reached, after, earlier⟩
  · exact Or.inl occupied
  · have apart : next ≠ place := by
      rintro rfl
      rw [free] at held
      cases held
    -- the free cell itself lies between the home and the place
    rcases busy next (by omega) (by omega) with occupied | ⟨-, -, self⟩
    · exact absurd free occupied
    · exact absurd self (Nat.lt_irrefl next)

/-- The entries from a place on are placed again one by one, up to the next free cell. -/
def rehash (size : ℕ) (home : Entry → ℕ) : ℕ → ℕ → (ℕ → Option Entry) → Option (ℕ → Option Entry)
  | 0, _, _ => none
  | fuel + 1, start, cells =>
    let place := if start = size then 0 else start
    match cells place with
    | none => some cells
    | some entry =>
      (scan size (fun cell => cell = place || (cells cell).isNone) size (home entry)).bind
        fun cell => rehash size home fuel (place + 1)
          (if cell = place then cells else Function.update (Function.update cells cell (some entry))
            place none)

theorem rehash_free (inside : start ≤ size) (free : cells (start % size) = none) :
    rehash size home (fuel + 1) start cells = some cells := by
  rw [← wrap_eq inside] at free
  simp [rehash, free]

theorem rehash_occupied (inside : start ≤ size) (held : cells (start % size) = some entry) :
    rehash size home (fuel + 1) start cells =
      (scan size (fun cell => cell = start % size || (cells cell).isNone) size (home entry)).bind
        fun cell => rehash size home fuel (start % size + 1)
          (if cell = start % size then cells
          else update (update cells cell (some entry)) (start % size) none) := by
  rw [← wrap_eq inside] at held ⊢
  simp [rehash, held]

theorem move_eq_swap (held : cells from_ = some entry) (free : cells to_ = none) :
    update (update cells to_ (some entry)) from_ none = cells ∘ Equiv.swap from_ to_ := by
  funext cell
  by_cases source : cell = from_
  · rw [source, update_self, comp_apply, Equiv.swap_apply_left, free]
  · rw [update_of_ne source, comp_apply]
    by_cases target : cell = to_
    · rw [target, update_self, Equiv.swap_apply_right, held]
    · rw [update_of_ne target, Equiv.swap_apply_of_ne_of_ne source target]

/-- A step of `rehash`: the entry at the end of the stretch goes to the first free cell behind its
home, or stays. -/
theorem PlacedFrom.step (line : PlacedFrom size home gap removed next cells)
    (first : removed < next)
    (starts : position size gap start = home entry) (behind : start ≤ target)
    (until_next : target ≤ next)
    (passed : ∀ between, start ≤ between → between < target →
      cells (position size gap between) ≠ none)
    (placed : after (position size gap target) = some entry)
    (emptied : target < next → after (position size gap next) = none)
    (others : ∀ place < size, place ≠ target → place ≠ next →
      after (position size gap place) = cells (position size gap place)) (inside : next < size) :
    PlacedFrom size home gap removed (next + 1) after := by
  have kept (place : ℕ) (less : place < size) (apart : place ≠ next)
      (occupied : cells (position size gap place) ≠ none) : after (position size gap place) ≠
        none := by
    by_cases same : place = target
    · rw [same, placed]
      exact some_ne_none entry
    · rwa [others place less same apart]
  intro place less other held
  by_cases atTarget : place = target
  · rw [atTarget, placed] at held
    cases held
    refine ⟨start, by omega, starts, ?_⟩
    intro between from_start earlier
    exact Or.inl (kept between (by omega) (by omega) (passed between from_start (by omega)))
  · have apart : place ≠ next := by
      rintro rfl
      rw [emptied (by omega)] at held
      cases held
    rw [others place less atTarget apart] at held
    obtain ⟨otherStart, before, otherStarts, busy⟩ := line place less other held
    refine ⟨otherStart, before, otherStarts, ?_⟩
    intro between from_start earlier
    by_cases atNext : between = next
    · -- the cell that has just become free belongs to the stretch
      exact Or.inr ⟨by omega, by omega, by omega⟩
    · rcases busy between from_start earlier with occupied | ⟨reached, low, high⟩
      · exact Or.inl (kept between (by omega) atNext occupied)
      · exact Or.inr ⟨by omega, low, by omega⟩

theorem swap_lt_iff (first : left < size) (second : right < size) :
    Equiv.swap left right place < size ↔ place < size := by
  by_cases atLeft : place = left
  · rw [atLeft, Equiv.swap_apply_left]
    exact iff_of_true second first
  · by_cases atRight : place = right
    · rw [atRight, Equiv.swap_apply_right]
      exact iff_of_true first second
    · rw [Equiv.swap_apply_of_ne_of_ne atLeft atRight]

theorem rehash_spec (some_cell : 0 < size) (homes : ∀ entry, home entry < size)
    (free : cells (position size gap 0) = none) (line : PlacedFrom size home gap removed next cells)
    (low : 0 < removed) (first : removed < next) (last : next ≤ size) (inside : start ≤ size)
    (here : start % size = position size gap next) (enough : size < fuel + next) :
    ∃ after, rehash size home fuel start cells = some after ∧ Placed size home after ∧
      ∃ moved : Equiv.Perm ℕ, (∀ place, moved place < size ↔ place < size) ∧
        after = cells ∘ moved := by
  induction fuel generalizing cells next start with
  | zero => omega
  | succ fuel ih =>
    cases held : cells (start % size) with
    | none =>
      have settled := (line.finish (here ▸ held)).ring some_cell
      exact ⟨cells, rehash_free inside held, settled, Equiv.refl ℕ, fun _ => Iff.rfl, rfl⟩
    | some entry =>
      rw [rehash_occupied inside held]
      have short : next < size := by
        rcases Nat.lt_or_eq_of_le last with short | full
        · exact short
        · rw [here, full, position_size, free] at held
          cases held
      obtain ⟨home_place, before, starts, busy⟩ := line next short entry (here ▸ held)
      have reach (step : ℕ) :
          position size (home entry) step = position size gap (home_place + step) := by
        rw [← starts, position_position]
      have after_gap : 0 < home_place := by
        by_contra zero
        rcases busy 0 (by omega) (by omega) with occupied | ⟨-, early, -⟩
        · exact occupied free
        · omega
      -- the search from the home ends at the entry itself at the latest
      have here_stops : (fun cell => decide (cell = start % size) || (cells cell).isNone)
          (position size (home entry) (next - home_place)) = true := by
        rw [reach, Nat.add_sub_cancel' before, here]
        simp
      obtain ⟨way, least, found, stops, passed⟩ :=
        scan_ends some_cell (fun cell => decide (cell = start % size) || (cells cell).isNone)
          (Nat.le_of_lt (homes entry)) (by omega : next - home_place < size) here_stops
      rw [found, bind_some]
      simp only [reach, Bool.or_eq_true, decide_eq_true_eq, isNone_iff_eq_none,
        Bool.or_eq_false_iff,
        decide_eq_false_iff_not, isNone_eq_false_iff, isSome_iff_ne_none] at stops passed ⊢
      have over_occupied (between : ℕ) (from_home : home_place ≤ between)
          (earlier : between < home_place + way) :
          cells (position size gap between) ≠ none := by
        have occupied := (passed (between - home_place) (by omega)).2
        rwa [Nat.add_sub_cancel' from_home] at occupied
      have next_inside : start % size + 1 ≤ size := Nat.mod_lt start some_cell
      have next_here : (start % size + 1) % size = position size gap (next + 1) := by
        rw [here, position, position, Nat.mod_add_mod, Nat.add_assoc]
      have distinct (left right : ℕ) (leftInside : left < size) (rightInside : right < size)
          (apart : left ≠ right) :
          position size gap left ≠ position size gap right :=
        fun same => apart (position_injective leftInside rightInside same)
      rw [here] at held next_inside next_here ⊢
      by_cases stays : home_place + way = next
      · rw [stays, if_pos rfl]
        apply ih free _ (by omega) short next_inside next_here (by omega)
        rw [stays] at over_occupied
        exact line.step first starts before (Nat.le_refl next) over_occupied held
          (fun less => absurd less (Nat.lt_irrefl next)) (fun _ _ _ _ => rfl) short
      · have moves := distinct (home_place + way) next (by omega) short stays
        have target_free : cells (position size gap (home_place + way)) = none :=
          stops.resolve_left fun same => moves (same.trans here)
        rw [if_neg moves, move_eq_swap held target_free]
        have swapped (place : ℕ) :
            (cells ∘ Equiv.swap (position size gap next) (position size gap (home_place + way)))
            (position size gap place) = cells (Equiv.swap (position size gap next)
              (position size gap (home_place + way)) (position size gap place)) := rfl
        have elsewhere (place : ℕ) (less : place < size) (notTarget : place ≠ home_place + way)
            (notNext : place ≠ next) :
            (cells ∘ Equiv.swap (position size gap next) (position size gap (home_place + way)))
              (position size gap place) = cells (position size gap place) := by
          rw [swapped, Equiv.swap_apply_of_ne_of_ne (distinct place next less short notNext)
            (distinct place (home_place + way) less (by omega) notTarget)]
        obtain ⟨after, rehashed, settled, moved, bounds, same⟩ := ih
          (by rw [elsewhere 0 some_cell (by omega) (by omega), free])
          (line.step first starts (by omega) (by omega) over_occupied
            (by rw [swapped, Equiv.swap_apply_right, held])
            (fun _ => by rw [swapped, Equiv.swap_apply_left, target_free]) elsewhere short)
          (by omega) short next_inside next_here (by omega)
        refine ⟨after, rehashed, settled, moved.trans (Equiv.swap _ _), ?_, same⟩
        intro place
        rw [← bounds place]
        exact swap_lt_iff (position_lt gap some_cell next)
          (position_lt gap some_cell (home_place + way))

section Maps
variable {Key Value : Type} [DecidableEq Key] {home : Key → ℕ} {cells : ℕ → Option (Key × Value)}
    {map : Key → Option Value}

/-- The cells hold each key of a map once, where it can be found. -/
structure Represents (size : ℕ) (home : Key → ℕ) (cells : ℕ → Option (Key × Value))
    (map : Key → Option Value) : Prop where
  placed : Placed size (fun entry => home entry.1) cells
  unique : ∀ left < size, ∀ right < size, ∀ key first second,
    cells left = some (key, first) → cells right = some (key, second) → left = right
  entries : ∀ key value, map key = some value ↔ ∃ place < size, cells place = some (key, value)

def live (map : Key → Option Value) : Set Key := {key | map key ≠ none}

def find (size : ℕ) (home : Key → ℕ) (cells : ℕ → Option (Key × Value)) (key : Key) : Option ℕ :=
  scan size (fun place => (cells place).all fun entry => entry.1 = key) size (home key)

omit [DecidableEq Key] in
theorem represents_empty :
    Represents size home (fun _ => (none : Option (Key × Value))) fun _ => none where
  placed := placed_empty
  unique := by
    intro _ _ _ _ _ _ _ held
    cases held
  entries := by
    intro key value
    constructor
    · intro held
      cases held
    · rintro ⟨_, _, held⟩
      cases held

variable {key : Key}

omit [DecidableEq Key] in
theorem Represents.absent (represents : Represents size home cells map) :
    map key = none ↔ ∀ place < size, ∀ value, cells place ≠ some (key, value) := by
  rw [eq_none_iff_forall_ne_some]
  constructor
  · intro absent place inside value held
    exact absent value ((represents.entries key value).mpr ⟨place, inside, held⟩)
  · intro nowhere value held
    obtain ⟨place, inside, found⟩ := (represents.entries key value).mp held
    exact nowhere place inside value found

omit [DecidableEq Key] in
theorem Represents.live_finite (represents : Represents size home cells map) :
    (live map).Finite := by
  have held :
      some '' live map ⊆ (fun place => (cells place).map Prod.fst) '' (Finset.range size) := by
    rintro _ ⟨key, alive, rfl⟩
    obtain ⟨value, stored⟩ := ne_none_iff_exists'.mp alive
    obtain ⟨place, inside, found⟩ := (represents.entries key value).mp stored
    exact ⟨place, Finset.mem_coe.mpr (Finset.mem_range.mpr inside), by simp [found]⟩
  exact Set.Finite.of_finite_image (((Finset.range size).finite_toSet.image _).subset held)
    (some_injective Key).injOn

omit [DecidableEq Key] in
theorem Represents.exists_free (represents : Represents size home cells map)
    (fewer : (live map).ncard < size) :
    ∃ place < size, cells place = none := by
  by_contra occupied
  push Not at occupied
  have keys : (fun place => (cells place).map Prod.fst) '' (Finset.range size : Set ℕ) ⊆ some ''
      live map := by
    rintro _ ⟨place, inside, rfl⟩
    obtain ⟨⟨key, value⟩, held⟩ :=
      ne_none_iff_exists'.mp (occupied place (Finset.mem_range.mp inside))
    refine ⟨key, ?_, by simp [held]⟩
    change map key ≠ none
    rw [(represents.entries key value).mpr ⟨place, Finset.mem_range.mp inside, held⟩]
    exact some_ne_none value
  have injective :
      Set.InjOn (fun place => (cells place).map Prod.fst) (Finset.range size : Set ℕ) := by
    intro left leftInside right rightInside same
    rw [Finset.mem_coe, Finset.mem_range] at leftInside rightInside
    obtain ⟨⟨key, first⟩, leftHeld⟩ := ne_none_iff_exists'.mp (occupied left leftInside)
    obtain ⟨⟨other, second⟩, rightHeld⟩ := ne_none_iff_exists'.mp (occupied right rightInside)
    simp only [leftHeld, rightHeld, map_some, Option.some.injEq] at same
    subst same
    exact represents.unique left leftInside right rightInside key first second leftHeld rightHeld
  have count := Set.ncard_le_ncard keys (represents.live_finite.image _)
  rw [Set.InjOn.ncard_image injective, Set.ncard_image_of_injective _ (some_injective Key),
    Set.ncard_coe_finset, Finset.card_range] at count
  omega

theorem Represents.find (represents : Represents size home cells map)
    (homes : ∀ key, home key < size) (free : ∃ place < size, cells place = none) :
    ∃ way < size, find size home cells key = some (position size (home key) way) ∧
      (∀ before < way, cells (position size (home key) before) ≠ none) ∧
      (cells (position size (home key) way) = none ∧ map key = none ∨
        ∃ value, cells (position size (home key) way) = some (key, value) ∧
          map key = some value) := by
  obtain ⟨freePlace, freeInside, isFree⟩ := free
  have some_cell : 0 < size := by omega
  obtain ⟨freeWay, freeLess, rfl⟩ := exists_position some_cell (home key) freeInside
  obtain ⟨way, least, found, stops, passed⟩ :=
    scan_ends some_cell (fun place => (cells place).all fun entry => entry.1 = key)
      (Nat.le_of_lt (homes key)) freeLess
      (by simp [isFree])
  refine ⟨way, by omega, found, ?_, ?_⟩
  · intro before earlier empty
    have failed := passed before earlier
    simp only [empty, all_none] at failed
    cases failed
  · cases held : cells (position size (home key) way) with
    | none =>
      refine Or.inl ⟨rfl, represents.absent.mpr ?_⟩
      intro place inside value present
      -- the key would have been found, or a free cell would lie in front of it
      obtain ⟨reach, _, rfl, busy⟩ := represents.placed place inside (key, value) present
      rcases Nat.lt_trichotomy reach way with earlier | same | later
      · have failed := passed reach earlier
        change position size (home key) reach < size at inside
        simp only [present, all_some, decide_true] at failed
        cases failed
      · rw [← same] at held
        cases present.symm.trans held
      · exact busy way later held
    | some entry =>
      obtain ⟨other, value⟩ := entry
      simp only [held, all_some, decide_eq_true_eq] at stops
      subst stops
      exact Or.inr ⟨value, rfl, (represents.entries other value).mpr
        ⟨_, position_lt _ some_cell _, held⟩⟩

theorem Represents.write (represents : Represents size home cells map) (some_cell : 0 < size)
    (less : way < size) (passed : ∀ before < way, cells (position size (home key) before) ≠ none)
    (here : cells (position size (home key) way) = none ∧ map key = none ∨
      ∃ value, cells (position size (home key) way) = some (key, value)) (value : Value) :
    Represents size home (update cells (position size (home key) way) (some (key, value)))
      (update map key (some value)) := by
  have inside := position_lt (home key) some_cell way
  -- no other cell holds the key, and the cell holds no other key
  have other_cell (place : ℕ) (less : place < size) (apart : place ≠ position size (home key) way)
      (old : Value) :
      cells place ≠ some (key, old) := by
    intro held
    rcases here with ⟨-, absent⟩ | ⟨known, present⟩
    · exact represents.absent.mp absent place less old held
    · exact apart (represents.unique place less _ inside key old known held present)
  have other_key (other : Key) (old : Value) (apart : other ≠ key) :
      cells (position size (home key) way) ≠ some (other, old) := by
    intro held
    rcases here with ⟨free, -⟩ | ⟨known, present⟩
    · cases free.symm.trans held
    · cases present.symm.trans held
      exact apart rfl
  refine ⟨represents.placed.insert (key, value) less passed, ?_, ?_⟩
  · intro left leftInside right rightInside other first second leftHeld rightHeld
    by_cases atLeft : left = position size (home key) way
    · by_cases atRight : right = position size (home key) way
      · rw [atLeft, atRight]
      · rw [atLeft, update_self] at leftHeld
        rw [update_of_ne atRight] at rightHeld
        cases leftHeld
        exact absurd rightHeld (other_cell right rightInside atRight second)
    · rw [update_of_ne atLeft] at leftHeld
      by_cases atRight : right = position size (home key) way
      · rw [atRight, update_self] at rightHeld
        cases rightHeld
        exact absurd leftHeld (other_cell left leftInside atLeft first)
      · rw [update_of_ne atRight] at rightHeld
        exact represents.unique left leftInside right rightInside other first second
          leftHeld rightHeld
  · intro other stored
    by_cases same : other = key
    · subst same
      rw [update_self]
      constructor
      · intro equal
        cases equal
        exact ⟨_, inside, update_self ..⟩
      · rintro ⟨place, less, held⟩
        by_cases atPlace : place = position size (home other) way
        · rw [atPlace, update_self] at held
          cases held
          rfl
        · rw [update_of_ne atPlace] at held
          exact absurd held (other_cell place less atPlace stored)
    · rw [update_of_ne same, represents.entries]
      apply exists_congr
      intro place
      apply and_congr_right
      intro less
      by_cases atPlace : place = position size (home key) way
      · rw [atPlace, update_self]
        apply iff_of_false (other_key other stored same)
        intro equal
        cases equal
        exact same rfl
      · rw [update_of_ne atPlace]

omit [DecidableEq Key] in
theorem entries_moved {moved : Equiv.Perm ℕ}
    (bounds : ∀ place, moved place < size ↔ place < size) (same : after = cells ∘ moved)
    (entry : Key × Value) :
    (∃ place < size, after place = some entry) ↔ ∃ place < size, cells place = some entry := by
  constructor
  · rintro ⟨place, inside, held⟩
    rw [same] at held
    exact ⟨moved place, (bounds place).mpr inside, held⟩
  · rintro ⟨place, inside, held⟩
    refine ⟨moved.symm place, ?_, ?_⟩
    · rw [← bounds, Equiv.apply_symm_apply]
      exact inside
    · rw [same, comp_apply, Equiv.apply_symm_apply, held]

theorem Represents.remove (represents : Represents size home cells map)
    (homes : ∀ key, home key < size)
    (free : ∃ place < size, cells place = none) (inside : place < size)
    (held : cells place = some (key, value)) :
    ∃ after, rehash size (fun entry => home entry.1) size (place + 1) (update cells place none) =
      some after ∧
      Represents size home after (update map key none) := by
  obtain ⟨gap, gapInside, isFree⟩ := free
  have some_cell : 0 < size := by omega
  have atGap : position size gap 0 = gap := Nat.mod_eq_of_lt gapInside
  obtain ⟨removed, removedInside, rfl⟩ := exists_position some_cell gap inside
  have low : 0 < removed := by
    rw [Nat.pos_iff_ne_zero]
    rintro rfl
    rw [atGap, isFree] at held
    cases held
  have elsewhere (other : ℕ) (less : other < size) (apart : other ≠ removed) :
      update cells (position size gap removed) none (position size gap other) = cells
        (position size gap other) :=
    update_of_ne (fun same => apart (position_injective less removedInside same)) _ _
  have gapFree : cells (position size gap 0) = none := by rw [atGap, isFree]
  have line := represents.placed.line some_cell (fun entry => homes entry.1) gapFree removed
  -- the removed entry leaves a stretch of one free cell
  have stretch : PlacedFrom size (fun entry => home entry.1) gap removed (removed + 1)
      (update cells (position size gap removed) none) := by
    intro other less entry found
    have apart : other ≠ removed := by
      rintro rfl
      rw [update_self] at found
      cases found
    rw [elsewhere other less apart] at found
    obtain ⟨start, before, starts, busy⟩ := line other less entry found
    refine ⟨start, before, starts, ?_⟩
    intro between from_start earlier
    by_cases atRemoved : between = removed
    · exact Or.inr ⟨by omega, by omega, by omega⟩
    · rcases busy between from_start earlier with occupied | ⟨-, first, last⟩
      · rw [elsewhere between (by omega) atRemoved]
        exact Or.inl occupied
      · omega
  obtain ⟨after, rehashed, placed, moved, bounds, same⟩ :=
    rehash_spec some_cell (fun entry => homes entry.1)
    ((elsewhere 0 some_cell (by omega)).trans gapFree) stretch low (Nat.lt_succ_self removed)
    (by omega : removed + 1 ≤ size) (by omega : position size gap removed + 1 ≤ size)
    (by rw [position, position, Nat.mod_add_mod, Nat.add_assoc])
      (by omega : size < size + (removed + 1))
  refine ⟨after, rehashed, placed, ?_, ?_⟩
  · intro left leftInside right rightInside other first second leftHeld rightHeld
    have unmoved (cell : ℕ) (less : cell < size) (old : Value)
        (found : after cell = some (other, old)) :
        cells (moved cell) = some (other, old) := by
      rw [same, comp_apply] at found
      rwa [update_of_ne] at found
      intro atPlace
      rw [atPlace, update_self] at found
      cases found
    apply moved.injective
    exact represents.unique _ ((bounds left).mpr leftInside) _ ((bounds right).mpr rightInside)
      other first second
      (unmoved left leftInside first leftHeld) (unmoved right rightInside second rightHeld)
  · intro other stored
    rw [entries_moved bounds same]
    by_cases removedKey : other = key
    · subst removedKey
      rw [update_self]
      apply iff_of_false
      · intro equal
        cases equal
      · rintro ⟨cell, less, found⟩
        by_cases atPlace : cell = position size gap removed
        · rw [atPlace, update_self] at found
          cases found
        · rw [update_of_ne atPlace] at found
          exact atPlace (represents.unique cell less _ inside other stored value found held)
    · rw [update_of_ne removedKey, represents.entries]
      apply exists_congr
      intro cell
      apply and_congr_right
      intro _
      by_cases atPlace : cell = position size gap removed
      · rw [atPlace, update_self, held]
        apply iff_of_false
        · intro equal
          cases equal
          exact removedKey rfl
        · intro equal
          cases equal
      · rw [update_of_ne atPlace]

theorem live_set {map : Key → Option Value} {value : Value} :
    live (update map key (some value)) = insert key (live map) := by
  ext other
  change update map key (some value) other ≠ none ↔ other = key ∨ map other ≠ none
  by_cases same : other = key
  · rw [same, update_self]
    exact iff_of_true (some_ne_none value) (Or.inl rfl)
  · rw [update_of_ne same]
    exact (or_iff_right same).symm

theorem live_remove {map : Key → Option Value} :
    live (update map key none) = live map \ {key} := by
  ext other
  change update map key none other ≠ none ↔ map other ≠ none ∧ ¬ other = key
  by_cases same : other = key
  · rw [same, update_self]
    exact iff_of_false (fun absent => absent rfl) fun both => both.2 rfl
  · rw [update_of_ne same]
    exact (and_iff_left same).symm

end Maps

end Orcm.LinearProbing
