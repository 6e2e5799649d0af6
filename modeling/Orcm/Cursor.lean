import Mathlib.Data.List.Basic

/-!
Programs that read a stream of symbols through a cursor; after a failure the state is the one a
program stopped in. `Reads` says what a program does when the stream starts with given symbols,
whatever follows them. `Writes` is its counterpart for programs that append symbols, and `Transfers`
joins the two. `Agrees` compares the runs of one program on two similar states, and `Returns` says
what holds of every result.
-/

namespace Orcm.Cursor

variable {State Symbol Failure Value : Type}

abbrev Program (State Failure Value : Type) := ExceptT Failure (StateM State) Value

def exec (program : Program State Failure Value) (state : State) : Except Failure Value × State :=
  program.run.run state

variable {state : State}

@[simp] theorem exec_pure (value : Value) :
    exec (pure value : Program State Failure Value) state = (.ok value, state) := rfl

@[simp] theorem exec_throw (failure : Failure) :
    exec (throw failure : Program State Failure Value) state = (.error failure, state) := rfl

variable {program : Program State Failure Value}

theorem exec_bind :
    exec (program >>= next) state =
      match exec program state with
      | (.ok value, after) => exec (next value) after
      | (.error failure, after) => (.error failure, after) := by
  simp only [exec, bind, ExceptT.bind, ExceptT.mk, ExceptT.run, StateT.bind, StateT.run]
  rcases program state with ⟨_ | _, after⟩ <;> rfl

variable {value : Value}

theorem exec_bind_ok (ran : exec program state = (.ok value, after)) :
    exec (program >>= next) state = exec (next value) after := by
  rw [exec_bind, ran]

theorem exec_bind_eq_ok :
    exec (program >>= next) state = (.ok result, final) ↔
      ∃ value after, exec program state = (.ok value, after) ∧
        exec (next value) after = (.ok result, final) := by
  rw [exec_bind]
  rcases exec program state with ⟨failure | value, after⟩ <;> simp

def repeated (program : Program State Failure Value) : Nat → Program State Failure (List Value)
  | 0 => pure []
  | count + 1 => do
      let value ← program
      let rest ← repeated program count
      pure (value :: rest)

section Reading

/-- A state with a stream of unread symbols and a cursor that moves over it. -/
class SymbolStream (State : Type) (Symbol : outParam Type) where
  unread : State → List Symbol
  advance : Nat → State → State
  unread_advance : ∀ count state, unread (advance count state) = (unread state).drop count
  advance_zero : ∀ state, advance 0 state = state
  advance_add : ∀ first second state, advance second (advance first state) = advance
    (first + second) state

open SymbolStream

variable [SymbolStream State Symbol]

/-- On any stream that starts with these symbols the program returns the value and consumes exactly
them. -/
def Reads (mode : State → Prop) (program : Program State Failure Value) (symbols : List Symbol)
    (value : Value) : Prop :=
  ∀ state rest, mode state → unread state = symbols ++ rest →
    exec program state = (.ok value, advance symbols.length state)

def Stable (mode : State → Prop) : Prop := ∀ count state, mode state → mode (advance count state)

variable {mode : State → Prop}

theorem reads_pure {value : Value} :
    Reads mode (pure value : Program State Failure Value) [] value := by
  intro state rest _ _
  simp [advance_zero]

theorem reads_bind (stable : Stable mode)
    (first : Reads mode program front value) (second : Reads mode (next value) back result) :
    Reads mode (program >>= next) (front ++ back) result := by
  intro state rest inMode stream
  rw [List.append_assoc] at stream
  have remaining : unread (advance front.length state) = back ++ rest := by
    rw [unread_advance, stream, List.drop_left]
  rw [exec_bind_ok (first state (back ++ rest) inMode stream),
    second _ rest (stable _ _ inMode) remaining, advance_add, List.length_append]

theorem reads_map (stable : Stable mode) (convert : Value → Next)
    (first : Reads mode program symbols value) :
    Reads mode (do let result ← program; pure (convert result)) symbols (convert value) := by
  have : Reads mode (do let result ← program; pure (convert result)) (symbols ++ [])
      (convert value) :=
    reads_bind stable first reads_pure
  rwa [List.append_nil] at this

/-- Whatever its outcome, the program has only moved the cursor. -/
def Moves (program : Program State Failure Value) : Prop :=
  ∀ state, ∃ count, (exec program state).2 = advance count state

theorem reads_repeated (stable : Stable mode)
    (each : ∀ value ∈ values, Reads mode program (encode value) value) :
    Reads mode (repeated program values.length) (values.flatMap encode) values := by
  induction values with
  | nil => exact reads_pure
  | cons value rest ih =>
    rw [List.forall_mem_cons] at each
    exact reads_bind stable each.1
      (reads_map stable (value :: ·) (ih each.2))

end Reading

section Writing

/-- How a state can grow by appended symbols: nothing appended is no growth, and growth composes. -/
structure Growth (State Symbol : Type) where
  grows : State → List Symbol → State → Prop
  nil : ∀ state, grows state [] state
  append : ∀ before front middle back after,
    grows before front middle → grows middle back after → grows before (front ++ back) after

/-- From any state in the mode the program succeeds, appends these symbols and stays in the mode. -/
def Writes (growth : Growth State Symbol) (mode : State → Prop)
    (program : Program State Failure Unit) (symbols : List Symbol) : Prop :=
  ∀ state, mode state → ∃ after, exec program state = (.ok (), after) ∧ mode after ∧
    growth.grows state symbols after

variable {growth : Growth State Symbol} {mode : State → Prop}

theorem writes_pure : Writes growth mode (pure () : Program State Failure Unit) [] :=
  fun state inMode => ⟨state, rfl, inMode, growth.nil state⟩

theorem writes_bind {program next : Program State Failure Unit}
    (first : Writes growth mode program front) (second : Writes growth mode next back) :
    Writes growth mode (do program; next) (front ++ back) := by
  intro state inMode
  obtain ⟨middle, ran, inMode, grown⟩ := first state inMode
  obtain ⟨after, ran', inMode, grown'⟩ := second middle inMode
  exact ⟨after, by rw [exec_bind_ok ran, ran'], inMode,
    growth.append state front middle back after grown grown'⟩

theorem writes_forM {program : Value → Program State Failure Unit} {values : List Value}
    (each : ∀ value ∈ values, Writes growth mode (program value) (encode value)) :
    Writes growth mode (values.forM program) (values.flatMap encode) := by
  induction values with
  | nil => exact writes_pure
  | cons value rest ih =>
    rw [List.forall_mem_cons] at each
    exact writes_bind each.1 (ih each.2)

end Writing

section Transferring

variable [SymbolStream State Symbol]

/-- Some symbols stand for the value: the one program writes them, the other turns them back. -/
def Transfers (growth : Growth State Symbol) (writable readable : State → Prop)
    (write : Program State Failure Unit)
    (read : Program State Failure Value) (value : Value) : Prop :=
  ∃ symbols, Writes growth writable write symbols ∧ Reads readable read symbols value

variable {growth : Growth State Symbol} {writable readable : State → Prop}

theorem transfers_pure {value : Value} :
    Transfers growth writable readable (pure () : Program State Failure Unit) (pure value) value :=
  ⟨[], writes_pure, reads_pure⟩

theorem transfers_bind (stable : Stable readable) {write : Program State Failure Unit}
    {read : Program State Failure Value}
    (first : Transfers growth writable readable write read value)
    (second : Transfers growth writable readable later (next value) result) :
    Transfers growth writable readable (do write; later) (read >>= next) result := by
  obtain ⟨front, writes, reads⟩ := first
  obtain ⟨back, writesLater, readsNext⟩ := second
  exact ⟨front ++ back, writes_bind writes writesLater,
    reads_bind stable reads readsNext⟩

theorem transfers_map (stable : Stable readable) {read : Program State Failure Value}
    {convert : Value → Next} (first : Transfers growth writable readable write read value) :
    Transfers growth writable readable write (do let result ← read; pure (convert result))
      (convert value) := by
  obtain ⟨symbols, writes, reads⟩ := first
  exact ⟨symbols, writes, reads_map stable convert reads⟩

theorem transfers_forM (stable : Stable readable) (write : Value → Program State Failure Unit)
    (read : Program State Failure Next) (convert : Value → Next) (values : List Value)
    (each : ∀ value ∈ values, Transfers growth writable readable (write value) read
      (convert value)) :
    Transfers growth writable readable (values.forM write) (repeated read values.length)
      (values.map convert) := by
  induction values with
  | nil => exact transfers_pure
  | cons value rest ih =>
    rw [List.forall_mem_cons] at each
    exact transfers_bind stable each.1
      (transfers_map stable (ih each.2))

end Transferring

section Comparing

variable {similar : State → State → Prop}

/-- From similar states the program has the same outcome, and the states stay similar. -/
def Agrees (similar : State → State → Prop) (program : Program State Failure Value) : Prop :=
  ∀ left right, similar left right →
    (exec program left).1 = (exec program right).1 ∧
      similar (exec program left).2 (exec program right).2

theorem agrees_pure {value : Value} : Agrees similar (pure value : Program State Failure Value) :=
  fun _ _ related => ⟨rfl, related⟩

theorem agrees_throw {failure : Failure} :
    Agrees similar (throw failure : Program State Failure Value) :=
  fun _ _ related => ⟨rfl, related⟩

theorem Agrees.outcomes (agrees : Agrees similar program) (related : similar left right) :
    ∃ outcome afterLeft afterRight, exec program left = (outcome, afterLeft) ∧
      exec program right = (outcome, afterRight) ∧ similar afterLeft afterRight := by
  obtain ⟨same, after⟩ := agrees left right related
  exact ⟨_, _, (exec program right).2, rfl, Prod.ext same.symm rfl, after⟩

theorem agrees_bind (first : Agrees similar program)
    (second : ∀ value, Agrees similar (next value)) :
    Agrees similar (program >>= next) := by
  intro left right related
  obtain ⟨outcome, middleLeft, middleRight, ranLeft, ranRight, after⟩ := first.outcomes related
  rw [exec_bind, exec_bind, ranLeft, ranRight]
  cases outcome with
  | error => exact ⟨rfl, after⟩
  | ok value => exact second value middleLeft middleRight after

theorem agrees_repeated (agrees : Agrees similar program) (count : Nat) :
    Agrees similar (repeated program count) := by
  induction count with
  | zero => exact agrees_pure
  | succ count ih => exact agrees_bind agrees fun _ => agrees_bind ih fun _ => agrees_pure

end Comparing

section Keeping

variable {holds : State → Prop}

end Keeping

/-! What can be said of a result, whatever the state was. -/

section Returning

variable {accepted : Value → Prop}

/-- If the program succeeds, its result is accepted. A condition that does not mention the result is
one without which the program fails. -/
def Returns (accepted : Value → Prop) (program : Program State Failure Value) : Prop :=
  ∀ state value after, exec program state = (.ok value, after) → accepted value

theorem returns_pure (holds : accepted value) :
    Returns accepted (pure value : Program State Failure Value) := by
  rintro state _ _ ⟨⟩
  exact holds

theorem returns_throw {failure : Failure} :
    Returns accepted (throw failure : Program State Failure Value) := by
  rintro state value after ⟨⟩

theorem returns_bind (first : Returns accepted program)
    (second : ∀ value, accepted value → Returns result (next value)) :
    Returns result (program >>= next) := by
  intro state value final ran
  obtain ⟨middle, after, ranFirst, ranNext⟩ := (exec_bind_eq_ok ..).mp ran
  exact second middle (first state middle after ranFirst) after value final ranNext

theorem returns_next (second : ∀ value, Returns result (next value)) :
    Returns result (program >>= next) := by
  intro state value final ran
  obtain ⟨middle, after, -, ranNext⟩ := (exec_bind_eq_ok ..).mp ran
  exact second middle after value final ranNext

theorem returns_both (first : Returns (fun _ => condition) program)
    (second : ∀ value, Returns (fun _ => others) (next value)) :
    Returns (fun _ => condition ∧ others) (program >>= next) :=
  returns_bind first fun value holds state result after ran =>
    ⟨holds, second value state result after ran⟩

theorem returns_forM (condition : Value → Prop) (program : Value → Program State Failure Unit)
    (values : List Value) (each : ∀ value, Returns (fun _ => condition value) (program value)) :
    Returns (fun _ => ∀ value ∈ values, condition value) (values.forM program) := by
  induction values with
  | nil => exact returns_pure (by simp)
  | cons value rest ih =>
    simp only [List.forall_mem_cons]
    exact returns_both (each value) fun _ => ih

theorem returns_repeated (each : Returns accepted program) :
    Returns (fun values => values.length = count ∧ ∀ value ∈ values, accepted value)
      (repeated program count) := by
  induction count with
  | zero => exact returns_pure (by simp)
  | succ count ih =>
    refine returns_bind each fun value holds => ?_
    refine returns_bind ih fun rest ⟨length, others⟩ => ?_
    exact returns_pure ⟨by rw [List.length_cons, length], List.forall_mem_cons.mpr ⟨holds, others⟩⟩

end Returning

end Orcm.Cursor
