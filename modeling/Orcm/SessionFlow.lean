import Mathlib.Data.List.Nodup

/-!
The way of a work item through a scheduler: it arrives, is parked or waits in line, is asked for,
granted and run. Two of the moves are what goes wrong: an item that was asked for is lost, or an
item that was granted is put back while the head of the running list is dropped.
-/

namespace Orcm.SessionFlow

open List

structure Flow (Item : Type) where
  arrived : List Item
  arriving : List Item
  parked : List Item
  waiting : List Item
  asked : List Item
  granted : List Item
  running : List Item
  /-- items that were parked or put in line -/
  accepted : List Item
  /-- items in the order in which they were put in line -/
  queued : List Item
  started : List Item
  finished : List Item
  withdrawn : List Item

inductive Move (Item : Type) where
  | internal
  | arrive (item : Item)
  | park (item : Item)
  | enqueue (item : Item)
  | ask (item : Item)
  | lose (item : Item)
  | grant (item : Item)
  | start (item : Item)
  | putBack (item : Item)
  | finish
  | withdraw

variable {Item : Type} [DecidableEq Item]

inductive Moves (f : Flow Item) : Move Item → Flow Item → Prop where
  | internal : Moves f .internal f
  | arrive (item : Item) : item ∉ f.arrived →
      Moves f (.arrive item)
        { f with arrived := f.arrived ++ [item], arriving := f.arriving ++ [item] }
  | park (item : Item) (rest : List Item) : f.arriving = item :: rest →
      Moves f (.park item) { f with
        arriving := rest, parked := f.parked ++ [item], accepted := f.accepted ++ [item] }
  | enqueue (item : Item) (rest : List Item) : f.arriving = item :: rest →
      Moves f (.enqueue item) { f with
        arriving := rest, waiting := f.waiting ++ [item], accepted := f.accepted ++ [item],
        queued := f.queued ++ [item] }
  | ask (item : Item) (rest : List Item) : f.waiting = item :: rest →
      Moves f (.ask item) { f with waiting := rest, asked := f.asked ++ [item] }
  | lose (item : Item) (rest : List Item) : f.asked = item :: rest →
      Moves f (.lose item) { f with asked := rest }
  | grant (item : Item) (rest : List Item) : f.asked = item :: rest →
      Moves f (.grant item) { f with asked := rest, granted := f.granted ++ [item] }
  | start (item : Item) (rest : List Item) : f.granted = item :: rest →
      Moves f (.start item) { f with
        granted := rest, running := f.running ++ [item], started := f.started ++ [item] }
  | putBack (item : Item) (rest : List Item) : f.granted = item :: rest →
      Moves f (.putBack item) { f with
        granted := rest, waiting := item :: f.waiting, running := (f.running ++ [item]).tail }
  | finish (running : List Item) : running.Sublist f.running →
      Moves f .finish { f with running, finished := f.finished ++ f.running.filter (· ∉ running) }
  | withdraw (parked waiting : List Item) : parked.Sublist f.parked → waiting.Sublist f.waiting →
      Moves f .withdraw { f with
        parked, waiting,
        withdrawn := f.withdrawn ++ f.parked.filter (· ∉ parked) ++ f.waiting.filter (· ∉ waiting) }

def places (f : Flow Item) : List Item := f.parked ++ f.waiting ++ f.asked ++ f.granted ++ f.running

def all (f : Flow Item) : List Item := f.arriving ++ places f

structure Distinct (f : Flow Item) : Prop where
  once : ∀ item, (all f).count item ≤ 1
  known : ∀ item ∈ all f, item ∈ f.arrived

def Complete (f : Flow Item) : Prop :=
  ∀ item ∈ f.accepted, item ∈ places f ∨ item ∈ f.finished ∨ item ∈ f.withdrawn

/-- Nothing runs when an item is put back, so that the head that is dropped is the item itself. -/
def Tidy (f : Flow Item) : Move Item → Prop
  | .putBack _ => f.running = []
  | _ => True

variable {f next : Flow Item} {move : Move Item}

theorem count_moves (moves : Moves f move next) (tidy : Tidy f move)
    (old : move ≠ .arrive item) : (all next).count item ≤ (all f).count item := by
  cases moves with
  | internal => exact Nat.le_refl _
  | arrive other =>
    have differs : other ≠ item := fun same => old (by rw [same])
    simp [all, places, count_cons_of_ne differs]
  -- the item goes from the head of one list to the end of the next
  | park other rest first | enqueue other rest first | ask other rest first | grant other rest first
  | start other rest first =>
    simp only [all, places, first, count_append, count_cons, count_nil]
    omega
  | lose other rest first => simp [all, places, first, count_cons]
  | putBack other rest first =>
    have empty : f.running = [] := tidy
    simp [all, places, first, empty, count_cons]
    omega
  | finish running kept =>
    have := kept.count_le item
    simp only [all, places, count_append]
    omega
  | withdraw parked waiting keptParked keptWaiting =>
    have := keptParked.count_le item
    have := keptWaiting.count_le item
    simp only [all, places, count_append]
    omega

theorem arrived_moves (moves : Moves f move next) :
    f.arrived ⊆ next.arrived ∧ ∀ item, move = .arrive item → item ∉ f.arrived ∧
      item ∈ next.arrived ∧
      (all next).count item = (all f).count item + 1 := by
  cases moves with
  | arrive item fresh =>
    refine ⟨fun other member => mem_append_left _ member, ?_⟩
    rintro other ⟨⟩
    refine ⟨fresh, by simp, ?_⟩
    simp [all, places]
    omega
  | _ => exact ⟨fun item member => member, fun _ impossible => by cases impossible⟩

theorem Distinct.moves (distinct : Distinct f) (moves : Moves f move next) (tidy : Tidy f move) :
    Distinct next := by
  obtain ⟨grows, fresh⟩ := arrived_moves moves
  have old : ∀ item, move ≠ .arrive item → (all next).count item ≤ (all f).count item :=
    fun item differs => count_moves moves tidy differs
  have new : ∀ item, move = .arrive item → (all next).count item = 1 ∧ item ∈ next.arrived := by
    intro item same
    obtain ⟨unknown, member, counted⟩ := fresh item same
    have absent : (all f).count item = 0 :=
      count_eq_zero_of_not_mem fun member => unknown (distinct.known item member)
    exact ⟨by omega, member⟩
  constructor
  · intro item
    by_cases same : move = .arrive item
    · exact Nat.le_of_eq (new item same).1
    · exact Nat.le_trans (old item same) (distinct.once item)
  · intro item member
    by_cases same : move = .arrive item
    · exact (new item same).2
    · have present := List.count_pos_iff.mpr member
      have := old item same
      exact grows (distinct.known item (List.count_pos_iff.mp (by omega)))

def unsettled (f : Flow Item) : List Item :=
  f.arriving ++ f.parked ++ f.waiting ++ f.asked ++ f.granted

theorem unsettled_moves (moves : Moves f move next) (member : item ∈ unsettled next) :
    item ∈ unsettled f ∨ item ∉ f.arrived := by
  cases moves with
  | internal => exact .inl member
  | arrive other fresh =>
    simp only [unsettled] at member ⊢
    by_cases same : item = other
    · exact .inr (same ▸ fresh)
    · grind
  | park other rest first | enqueue other rest first | ask other rest first
  | grant other rest first =>
    simp only [unsettled, mem_append] at member ⊢
    grind
  | lose other rest first | start other rest first | putBack other rest first =>
    simp only [unsettled] at member ⊢
    grind
  | finish => exact .inl member
  | withdraw parked waiting keptParked keptWaiting =>
    have inParked : item ∈ parked → item ∈ f.parked := fun member => keptParked.subset member
    have inWaiting : item ∈ waiting → item ∈ f.waiting := fun member => keptWaiting.subset member
    simp only [unsettled] at member ⊢
    grind

theorem Complete.moves (complete : Complete f) (moves : Moves f move next)
    (tidy : Tidy f move) (careful : ∀ item, move ≠ .lose item) : Complete next := by
  intro item accepted
  cases moves with
  | internal => exact complete item accepted
  | arrive => exact complete item accepted
  | lose other => exact absurd rfl (careful other)
  | park other rest first | enqueue other rest first =>
    rcases List.mem_append.mp accepted with before | now
    · have := complete item before
      simp only [places, mem_append] at this ⊢
      grind
    · simp only [places, mem_append]
      grind
  | ask other rest first | grant other rest first | start other rest first =>
    have := complete item accepted
    simp only [places] at this ⊢
    grind
  | putBack other rest first =>
    have empty : f.running = [] := tidy
    have := complete item accepted
    simp only [places, first, empty, nil_append, tail_cons, mem_append, mem_cons, not_mem_nil,
      or_false] at this ⊢
    grind
  | finish =>
    have := complete item accepted
    simp only [places] at this ⊢
    grind
  | withdraw =>
    have := complete item accepted
    simp only [places, mem_append] at this ⊢
    grind

/-- The items between the line and the running list, first the one that runs next. -/
def line (f : Flow Item) : List Item := f.granted ++ f.asked ++ f.waiting

structure Ordered (f : Flow Item) : Prop where
  fresh : (f.queued ++ f.arriving).Nodup
  known : ∀ item ∈ f.queued ++ f.arriving, item ∈ f.arrived
  inLine : (line f).Sublist f.queued
  started : f.started ⊆ f.queued
  settled : ∀ item ∈ f.queued, item ∈ line f ∨ item ∈ f.started ∨ item ∈ f.withdrawn
  ahead : ∀ first second, [first, second].Sublist f.queued → first ∈ line f → second ∉ f.started

/-- No item is lost, and an item is put back only when it is the only one on its way. -/
def Fair (f : Flow Item) : Move Item → Prop
  | .lose _ => False
  | .putBack item => f.granted = [item] ∧ f.asked = []
  | _ => True

omit [DecidableEq Item] in
theorem sublist_append_last (pair : [first, second].Sublist (items ++ [last])) :
    [first, second].Sublist items ∨ (first ∈ items ∧ second = last) := by
  obtain ⟨front, back, split, inFront, inBack⟩ := List.sublist_append_iff.mp pair
  match front, back, split with
  | [], [_, _], rfl =>
    have := inBack.length_le
    simp at this
  | [_], [_], rfl =>
    exact .inr ⟨inFront.subset (by simp), by simpa using inBack.subset (List.mem_singleton.mpr rfl)⟩
  | [_, _], [], rfl => exact .inl inFront

omit [DecidableEq Item] in
theorem not_sublist_swap (nodup : items.Nodup) (pair : [first, second].Sublist items) :
    ¬ [second, first].Sublist items := by
  induction items with
  | nil => cases pair
  | cons item rest ih =>
    obtain ⟨fresh, nodup⟩ := List.nodup_cons.mp nodup
    intro swapped
    cases pair with
    | cons _ pair =>
      cases swapped with
      | cons _ swapped => exact ih nodup pair swapped
      | cons_cons => exact fresh (pair.subset (by simp))
    | cons_cons _ pair =>
      cases swapped with
      | cons _ swapped => exact fresh (swapped.subset (by simp))
      | cons_cons => exact fresh (pair.subset (by simp))

omit [DecidableEq Item] in
/-- A move that starts nothing and puts nothing in line keeps the order, if items leave the line
only by being withdrawn. -/
theorem Ordered.of_line {next : Flow Item} (ordered : Ordered f) (queued : next.queued = f.queued)
    (started : next.started = f.started) (fresh : (f.queued ++ next.arriving).Nodup)
    (known : ∀ item ∈ f.queued ++ next.arriving, item ∈ next.arrived)
    (shrinks : (line next).Sublist (line f))
    (withdrawn : f.withdrawn ⊆ next.withdrawn)
    (leaves : ∀ item ∈ line f, item ∈ line next ∨ item ∈ next.withdrawn) :
    Ordered next := by
  constructor
  · rwa [queued]
  · rwa [queued]
  · rw [queued]
    exact shrinks.trans ordered.inLine
  · rw [queued, started]
    exact ordered.started
  · intro item member
    rw [queued] at member
    rw [started]
    rcases ordered.settled item member with inLine | begun | gone
    · rcases leaves item inLine with stays | gone
      · exact .inl stays
      · exact .inr (.inr gone)
    · exact .inr (.inl begun)
    · exact .inr (.inr (withdrawn gone))
  · intro first second pair inLine
    rw [queued] at pair
    rw [started]
    exact ordered.ahead first second pair (shrinks.subset inLine)

omit [DecidableEq Item] in
theorem Ordered.enqueue {f : Flow Item} (ordered : Ordered f) {item : Item} {rest : List Item}
    (first : f.arriving = item :: rest) :
    Ordered { f with
      arriving := rest, waiting := f.waiting ++ [item], accepted := f.accepted ++ [item],
      queued := f.queued ++ [item] } := by
  have split : f.queued ++ f.arriving = f.queued ++ [item] ++ rest := by simp [first]
  have fresh : item ∉ f.queued := by
    have distinct := ordered.fresh
    rw [first] at distinct
    exact fun member => (List.nodup_append.mp distinct).2.2 item member item (by simp) rfl
  have longer : line { f with
      arriving := rest, waiting := f.waiting ++ [item], accepted := f.accepted ++ [item],
      queued := f.queued ++ [item] } = line f ++ [item] := by simp [line]
  constructor
  · exact split ▸ ordered.fresh
  · exact split ▸ ordered.known
  · rw [longer]
    exact ordered.inLine.append (List.Sublist.refl _)
  · exact fun other member => mem_append_left _ (ordered.started member)
  · intro other member
    rw [longer]
    rcases List.mem_append.mp member with before | now
    · rcases ordered.settled other before with inLine | others
      · exact .inl (mem_append_left _ inLine)
      · exact .inr others
    · exact .inl (mem_append_right _ now)
  · intro one other pair inLine begun
    rcases sublist_append_last pair with pair | ⟨-, rfl⟩
    · rw [longer] at inLine
      rcases List.mem_append.mp inLine with inLine | now
      · exact ordered.ahead one other pair inLine begun
      · rw [List.mem_singleton.mp now] at pair
        exact fresh (pair.subset (by simp))
    · exact fresh (ordered.started begun)

omit [DecidableEq Item] in
/-- The item that starts is the head of the line, so everything that is still in line was queued
later. -/
theorem Ordered.start (ordered : Ordered f) {item : Item} {rest : List Item}
    (first : f.granted = item :: rest) :
    Ordered { f with
      granted := rest, running := f.running ++ [item], started := f.started ++ [item] } := by
  have head : line f = item :: line { f with
      granted := rest, running := f.running ++ [item],
      started := f.started ++ [item] } := by simp [line, first]
  have inLine := ordered.inLine
  rw [head] at inLine
  constructor
  · exact ordered.fresh
  · exact ordered.known
  · exact (sublist_cons_self _ _).trans inLine
  · intro other member
    rcases List.mem_append.mp member with before | now
    · exact ordered.started before
    · rw [List.mem_singleton.mp now]
      exact inLine.subset mem_cons_self
  · intro other member
    rcases ordered.settled other member with stays | begun | gone
    · rw [head] at stays
      rcases List.mem_cons.mp stays with rfl | stays
      · exact .inr (.inl (by simp))
      · exact .inl stays
    · exact .inr (.inl (mem_append_left _ begun))
    · exact .inr (.inr gone)
  · intro one other pair stays begun
    rcases List.mem_append.mp begun with before | now
    · refine ordered.ahead one other pair ?_ before
      rw [head]
      exact mem_cons_of_mem _ stays
    · rw [List.mem_singleton.mp now] at pair
      have swapped : [item, one].Sublist f.queued := by
        refine List.Sublist.trans ?_ inLine
        exact (List.singleton_sublist.mpr stays).cons_cons item
      exact not_sublist_swap (List.nodup_append.mp ordered.fresh).1 pair swapped

theorem Ordered.moves {next : Flow Item} (ordered : Ordered f) (moves : Moves f move next)
    (fair : Fair f move) : Ordered next := by
  have stays : ∀ item ∈ line f, item ∈ line f ∨ item ∈ f.withdrawn := fun item member => .inl member
  have same : ∀ other : Flow Item, other.queued = f.queued → other.started = f.started →
      other.arriving = f.arriving →
      other.arrived = f.arrived → other.withdrawn = f.withdrawn → line other = line f →
        Ordered other := by
    intro other queued started arriving arrived withdrawn equal
    exact Ordered.of_line ordered queued started (arriving ▸ ordered.fresh)
      (arriving ▸ arrived ▸ ordered.known) (equal ▸ List.Sublist.refl _)
        (withdrawn ▸ List.Subset.refl _)
      (fun item member => .inl (equal ▸ member))
  -- asking, granting and finishing move items within the line or behind it
  cases moves with
  | internal => exact ordered
  | arrive item fresh =>
    have distinct : (f.queued ++ (f.arriving ++ [item])).Nodup := by
      rw [← append_assoc]
      refine List.nodup_append.mpr ⟨ordered.fresh, by simp, ?_⟩
      intro other member last now
      rw [List.mem_singleton.mp now]
      exact fun equal => fresh (equal ▸ ordered.known other member)
    refine Ordered.of_line ordered rfl rfl distinct ?_ (List.Sublist.refl _)
      (List.Subset.refl _) stays
    intro other member
    rw [← append_assoc] at member
    rcases List.mem_append.mp member with before | now
    · exact mem_append_left _ (ordered.known other before)
    · exact mem_append_right _ now
  | park item rest first =>
    have shorter : (f.queued ++ rest).Sublist (f.queued ++ f.arriving) := by
      rw [first]
      exact (List.Sublist.refl _).append (sublist_cons_self _ _)
    exact Ordered.of_line ordered rfl rfl (shorter.nodup ordered.fresh)
      (fun other member => ordered.known other (shorter.subset member)) (List.Sublist.refl _)
        (List.Subset.refl _) stays
  | enqueue item rest first => exact ordered.enqueue first
  | ask item rest first => exact same _ rfl rfl rfl rfl rfl (by simp [line, first])
  | lose => exact fair.elim
  | grant item rest first => exact same _ rfl rfl rfl rfl rfl (by simp [line, first])
  | start item rest first => exact ordered.start first
  | putBack item rest first =>
    obtain ⟨only, nothing⟩ := fair
    obtain rfl : rest = [] := by simpa [first] using only
    exact same _ rfl rfl rfl rfl rfl (by simp [line, first, nothing])
  | finish => exact same _ rfl rfl rfl rfl rfl rfl
  | withdraw parked waiting keptParked keptWaiting =>
    have shrinks : (f.granted ++ f.asked ++ waiting).Sublist (line f) :=
      (List.Sublist.refl _).append keptWaiting
    refine Ordered.of_line ordered rfl rfl ordered.fresh ordered.known shrinks
      (fun other member => mem_append_left _ (mem_append_left _ member)) ?_
    intro other member
    simp only [line] at member ⊢
    grind

end Orcm.SessionFlow
