import Mathlib
import Rill.Proofs.Build.Stages
import Rill.Proofs.Likeness.Renaming
import Rill.Proofs.Straight.Programs

/-!
# Running straight-line programs

A straight-line program in which every name is bound before it is used is built into the program that
`built` describes: each binding declares a local variable, and a name means the variable that was
declared last.

Running that program keeps a store whose variables hold what the names stand for (`Agrees`), so it
prints what `printed` says.
-/

namespace Rill

namespace Straight

open Lexer (LaidOut)

/-! ## The built program -/

/-- The table of the local variables. The globals and the arguments come before it. -/
def localTable : TableId := 2

/-- The variable that a name means, given the names of the variables so far. -/
def place (bound : List String) (name : String) : VarRef :=
  ⟨localTable, (lastIndex? (· == name) bound).getD 0⟩

def Operand.term (bound : List String) : Operand → Term
  | number literal => .intAt (UInt64.ofNat literal.value) anywhere
  | «variable» name => .typed (.variable (place bound name.text)) (.u64At anywhere) anywhere

/-- A summand behind a term. -/
def addTerm (bound : List String) (left : Term) (operand : Operand) : Term :=
  .typed (.sum left (operand.term bound)) (.u64At anywhere) anywhere

def Sum.term (bound : List String) (sum : Sum) : Term :=
  sum.others.foldl (addTerm bound) (sum.first.term bound)

theorem Sum.term_add (bound : List String) (sum : Sum) (operand : Operand) :
    (sum.add operand).term bound = addTerm bound (sum.term bound) operand := by
  simp [Sum.term, Sum.add]

def Statement.term (bound : List String) : Statement → Term
  | bind _ sum => .untyped (.define ⟨localTable, bound.length⟩ (sum.term bound)) anywhere
  | assign name sum => .untyped (.assign (place bound name.text) (sum.term bound)) anywhere
  | print sum => .untyped (.printU64 (sum.term bound)) anywhere

/-- The variables that a statement declares. They hold the terms that they were built with. -/
def Statement.locals (bound : List String) : Statement → List Variable
  | bind name sum => [⟨name.text, anywhere, some (.u64At anywhere), some (sum.term bound)⟩]
  | assign .. | print _ => []

/-- The body of `main`. -/
def terms (bound : List String) : List Statement → List Term
  | [] => []
  | statement :: rest => statement.term bound :: terms (bound ++ statement.binds) rest

/-- The local variables of `main`. -/
def locals (bound : List String) : List Statement → List Variable
  | [] => []
  | statement :: rest => statement.locals bound ++ locals (bound ++ statement.binds) rest

/-- The type of `main`. -/
def mainType : Term :=
  .untyped (.functionType [] (.voidAt anywhere)) anywhere

/-- The only global. It has no value while its body is built. -/
def mainVar (value? : Option Term) : Variable :=
  { name := entryName, nameSpan := anywhere, type? := some mainType, value? }

/-- The program of the statements. -/
def built (statements : List Statement) : Program :=
  { tables := #[#[mainVar (some (.typed (.function 0) mainType anywhere))], #[],
      (locals [] statements).toArray]
    functions := #[⟨anywhere, 1, .voidAt anywhere, localTable, terms [] statements⟩]
    globals := 0 }

/-! ## Places -/

section Places

variable {name other : String} {bound : List String}

theorem place_append_same (name : String) (bound : List String) :
    place (bound ++ [name]) name = ⟨localTable, bound.length⟩ := by
  simp [place, lastIndex?_append_singleton]

theorem place_append_other (bound : List String) (different : other ≠ name) :
    place (bound ++ [other]) name = place bound name := by
  simp [place, lastIndex?_append_singleton, different]

/-- The variable that a bound name means has that name. -/
theorem lastIndex?_of_mem (isBound : name ∈ bound) :
    ∃ index, lastIndex? (· == name) bound = some index ∧ bound[index]? = some name := by
  cases found : lastIndex? (· == name) bound with
  | none => exact absurd (lastIndex?_eq_none_iff.mp found name isBound) (by simp)
  | some index =>
      obtain ⟨⟨other, here, isName⟩, _⟩ := lastIndex?_spec found
      exact ⟨index, rfl, eq_of_beq isName ▸ here⟩

theorem getElem?_place (isBound : name ∈ bound) : bound[(place bound name).index]? = some name := by
  obtain ⟨index, found, here⟩ := lastIndex?_of_mem isBound
  simpa [place, found] using here

theorem place_lt (isBound : name ∈ bound) : (place bound name).index < bound.length :=
  (List.getElem?_eq_some_iff.mp (getElem?_place isBound)).1

/-- Different names mean different variables. -/
theorem place_injective (isBound : name ∈ bound) (isBound' : other ∈ bound)
    (same : place bound name = place bound other) : name = other := by
  have here := getElem?_place isBound
  rw [same, getElem?_place isBound'] at here
  exact (Option.some.inj here).symm

end Places

/-! ## Building -/

/-- The context while the body of `main` is built. -/
def inBody (vars : List Variable) : BuildContext :=
  { program := { tables := #[#[mainVar none], #[], vars.toArray], functions := #[], globals := 0 }
    scope := [localTable, 1, 0]
    results := [.voidAt anywhere]
    deferred := [] }

/-- All variables are numbers. -/
def Numeric (vars : List Variable) : Prop :=
  ∀ var ∈ vars, var.type? = some (.u64At anywhere)

section Building

open Build

variable {vars : List Variable}

theorem slotIn?_inBody (vars : List Variable) (index : Nat) :
    slotIn? (inBody vars).program.tables ⟨localTable, index⟩ = vars[index]? := by
  simp [slotIn?, inBody, localTable]

theorem resolve_inBody {name : String} (isBound : name ∈ vars.map Variable.name) :
    resolve name anywhere (inBody vars) = .ok (place (vars.map Variable.name) name, inBody vars) := by
  obtain ⟨index, found, _⟩ := lastIndex?_of_mem isBound
  have looked : VariableTable.lookup? vars.toArray name = some index := by
    rw [← found]
    exact lastIndex?_congr (by simp [Function.comp_def])
  have resolved : ScopeChain.lookup? (inBody vars).program name (inBody vars).scope =
      .ok (some ⟨localTable, index⟩) := by
    have tableAt : (inBody vars).program.table localTable = .ok vars.toArray := rfl
    change ScopeChain.lookup? _ name (localTable :: [1, 0]) = _
    rw [ScopeChain.lookup?, tableAt]
    simp only [Bind.bind, Except.bind, looked]
    rfl
  have isPlace : place (vars.map Variable.name) name = ⟨localTable, index⟩ := by
    simp [place, found]
  rw [isPlace]
  have gets : (get : Build BuildContext) (inBody vars) = .ok (inBody vars, inBody vars) := rfl
  refine (bind_of_ok gets).trans ?_
  rw [resolved]
  rfl

theorem readVar_inBody (numeric : Numeric vars) {name : String} (isBound : name ∈ vars.map Variable.name) :
    ∃ var, readVar (place (vars.map Variable.name) name) (inBody vars) = .ok (var, inBody vars) ∧
      var.type? = some (.u64At anywhere) := by
  have inBounds := place_lt isBound
  rw [List.length_map] at inBounds
  have varAt := List.getElem?_eq_getElem inBounds
  exact ⟨_, readVar_eq_ok_iff.mpr ⟨(slotIn?_inBody vars _).trans varAt, rfl⟩,
    numeric _ (List.mem_of_getElem? varAt)⟩

theorem buildValue_operand (numeric : Numeric vars) {operand : Operand}
    (isBound : operand.names ⊆ vars.map Variable.name) :
    buildValue operand.phrase (inBody vars) =
      .ok (operand.term (vars.map Variable.name), inBody vars) := by
  cases operand with
  | number literal => rw [Operand.phrase, buildValue]; rfl
  | «variable» name =>
      replace isBound : name.text ∈ vars.map Variable.name := by simpa [Operand.names] using isBound
      obtain ⟨var, read, typed⟩ := readVar_inBody numeric isBound
      rw [Operand.phrase, buildValue]
      refine (bind_of_ok (resolve_inBody isBound)).trans ((bind_of_ok read).trans ?_)
      rw [typed]
      rfl

/-- A term that is computed and gives a number. -/
def IsNumber (term : Term) : Prop :=
  term.type? = some (.u64At anywhere) ∧ term.namesType = false

theorem isNumber_operand (bound : List String) (operand : Operand) : IsNumber (operand.term bound) := by
  cases operand <;> exact ⟨rfl, rfl⟩

theorem isNumber_sum (bound : List String) (sum : Sum) : IsNumber (sum.term bound) := by
  induction sum using Sum.induction with
  | single first => exact isNumber_operand bound first
  | add sum operand _ =>
      rw [sum.term_add]
      exact ⟨rfl, rfl⟩

theorem expectU64_of_isNumber {term : Term} (isNumber : IsNumber term) (place : U64Place)
    (context : BuildContext) : expectU64 place term context = .ok ((), context) := by
  unfold expectU64
  rw [isNumber.1]
  rfl

theorem satisfies_of_isNumber {term : Term} (isNumber : IsNumber term) :
    (Term.u64At anywhere).satisfies term = .ok true := by
  simp only [Term.satisfies, Term.u64At, Term.untyped, isNumber.1]
  split <;> rfl

theorem buildValue_sum (numeric : Numeric vars) {sum : Sum}
    (isBound : sum.names ⊆ vars.map Variable.name) :
    buildValue sum.phrase (inBody vars) = .ok (sum.term (vars.map Variable.name), inBody vars) := by
  induction sum using Sum.induction with
  | single first => exact buildValue_operand numeric (by simpa using isBound)
  | add sum operand ih =>
      rw [Sum.names_add, List.append_subset] at isBound
      have left := ih isBound.1
      have right := buildValue_operand numeric isBound.2
      rw [sum.phrase_add, sum.term_add, addend, buildValue]
      refine (bind_of_ok left).trans ((bind_of_ok right).trans ?_)
      refine (bind_of_ok (expectU64_of_isNumber (isNumber_sum _ sum) .sumOperand _)).trans ?_
      exact bind_of_ok (expectU64_of_isNumber (isNumber_operand _ operand) .sumOperand _)

theorem declare_inBody (vars : List Variable) (var : Variable) :
    declare localTable var (inBody vars) = .ok (⟨localTable, vars.length⟩, inBody (vars ++ [var])) := by
  have tableAt : (inBody vars).program.tables[localTable]? = some vars.toArray := rfl
  rw [declare_of_table var tableAt]
  simp [inBody, Program.declare, localTable]

theorem bind_inBody (vars : List Variable) {var : Variable} (untyped : var.type? = none) (value : Term) :
    Build.bind ⟨localTable, vars.length⟩ value (inBody (vars ++ [var])) =
      .ok ((), inBody (vars ++ [filled value var])) := by
  have found : slotIn? (inBody (vars ++ [var])).program.tables ⟨localTable, vars.length⟩ = some var := by
    simp [slotIn?_inBody]
  rw [bind_of_satisfies found (by simp [untyped])]
  simp [inBody, Program.modifyVar, localTable, modify_append_cons]

/-- A local binding of a number declares a variable and leaves something to execute. -/
theorem buildLocal_inBody (vars : List Variable) (name : String) {value : Term} (isNumber : IsNumber value) :
    buildLocal localTable name anywhere anywhere none value (inBody vars) =
      .ok (some (.untyped (.define ⟨localTable, vars.length⟩ value) anywhere),
        inBody (vars ++ [⟨name, anywhere, some (.u64At anywhere), some value⟩])) := by
  refine (bind_of_ok (declare_inBody vars _)).trans ((bind_of_ok (bind_inBody vars rfl value)).trans ?_)
  rw [isNumber.2]
  simp [filled, isNumber.1]
  rfl

/-- An assignment to a number of a number. -/
theorem buildAssign_inBody (numeric : Numeric vars) {name : String} {value : Term}
    (isBound : name ∈ vars.map Variable.name) (isNumber : IsNumber value) :
    buildAssign anywhere (place (vars.map Variable.name) name) value (inBody vars) =
      .ok (.untyped (.assign (place (vars.map Variable.name) name) value) anywhere, inBody vars) := by
  obtain ⟨var, read, typed⟩ := readVar_inBody numeric isBound
  refine (bind_of_ok read).trans ?_
  rw [typed]
  exact bind_of_ok (expect_of_satisfies (satisfies_of_isNumber isNumber))

/-- One statement is built into its term, and its variables are declared. -/
theorem buildStatement_eq (numeric : Numeric vars) {statement : Statement}
    (isBound : statement.uses ⊆ vars.map Variable.name) :
    buildStatement localTable statement.phrase (inBody vars) =
      .ok (some (statement.term (vars.map Variable.name)),
        inBody (vars ++ statement.locals (vars.map Variable.name))) := by
  have named : ∀ name : Name, nameOf ⟨.ident name.text, anywhere⟩ (inBody vars) = .ok (name.text, inBody vars) :=
    fun _ => rfl
  cases statement with
  | bind name sum =>
      have untyped : Option.mapM buildType none (inBody vars) = .ok (none, inBody vars) := rfl
      rw [Statement.phrase, buildStatement, Statement.term, Statement.locals, List.length_map]
      refine (bind_of_ok (named name)).trans ((bind_of_ok untyped).trans ?_)
      exact (bind_of_ok (buildValue_sum numeric isBound)).trans
        (buildLocal_inBody vars name.text (isNumber_sum _ sum))
  | assign name sum =>
      rw [Statement.uses, List.cons_subset] at isBound
      rw [Statement.phrase, buildStatement, Statement.term, Statement.locals, List.append_nil]
      refine (bind_of_ok (named name)).trans ((bind_of_ok (resolve_inBody isBound.1)).trans ?_)
      refine (bind_of_ok (buildValue_sum numeric isBound.2)).trans ?_
      exact bind_of_ok (buildAssign_inBody numeric isBound.1 (isNumber_sum _ sum))
  | print sum =>
      rw [Statement.phrase, buildStatement, Statement.term, Statement.locals, List.append_nil]
      refine (bind_of_ok (buildValue_sum numeric isBound)).trans ?_
      exact bind_of_ok (expectU64_of_isNumber (isNumber_sum _ sum) .printOperand _)

theorem Statement.locals_names (bound : List String) (statement : Statement) :
    (statement.locals bound).map Variable.name = statement.binds := by
  cases statement <;> rfl

theorem numeric_append (numeric : Numeric vars) (bound : List String) (statement : Statement) :
    Numeric (vars ++ statement.locals bound) := by
  cases statement <;> simpa [Numeric, Statement.locals, or_imp, forall_and] using numeric

/-- All statements are built, each with the variables of those before it. -/
theorem buildStatements_eq (numeric : Numeric vars) {statements : List Statement}
    (bindsFirst : wellScoped (vars.map Variable.name) statements = true) :
    buildStatements localTable (bodyPhrases statements) (inBody vars) =
      .ok (terms (vars.map Variable.name) statements,
        inBody (vars ++ locals (vars.map Variable.name) statements)) := by
  induction statements generalizing vars with
  | nil => rw [locals, List.append_nil]; rfl
  | cons statement rest ih =>
      obtain ⟨isBound, othersBound⟩ := wellScoped_cons_iff.mp bindsFirst
      have first := buildStatement_eq numeric isBound
      have names : (vars ++ statement.locals (vars.map Variable.name)).map Variable.name =
          vars.map Variable.name ++ statement.binds := by
        rw [List.map_append, Statement.locals_names]
      have others := ih (numeric_append numeric _ statement) (by rw [names]; exact othersBound)
      rw [names] at others
      rw [bodyPhrases, List.map_cons, buildStatements, terms, locals, ← List.append_assoc]
      exact (bind_of_ok first).trans (bind_of_ok others)

/-- The binding of `main`. -/
def mainBinding (statements : List Statement) : Global :=
  { name := entryName, nameSpan := anywhere, type? := none, value? := some (mainPhrase statements)
    span := anywhere }

theorem buildType_void (context : BuildContext) :
    buildType ⟨.void, anywhere⟩ context = .ok (.voidAt anywhere, context) := by
  rw [buildType]
  · rfl
  · simp

theorem annotate_main (statements : List Statement) :
    annotate ((mainBinding statements).pending 0 0) (withGlobals [(mainBinding statements).stub]) =
      .ok ((), withGlobals [mainVar none]) := by
  have signed : signature ((mainBinding statements).pending 0 0)
      (withGlobals [(mainBinding statements).stub]) =
        .ok (some mainType, withGlobals [(mainBinding statements).stub]) :=
    (bind_of_ok (buildType_void _)).trans rfl
  rw [annotate_eq]
  exact (bind_of_ok signed).trans (modifyVar_withGlobals [] [] _ _)

/-- The program before `main` gets its value. -/
def beforeMain (statements : List Statement) : Program :=
  { built statements with tables := #[#[mainVar none], #[], (locals [] statements).toArray] }

theorem buildValue_main {statements : List Statement} (bindsFirst : wellScoped [] statements = true) :
    buildValue (mainPhrase statements) (withGlobals [mainVar none]) =
      .ok (.typed (.function 0) mainType anywhere, { start with program := beforeMain statements }) := by
  have body : buildBody localTable ⟨.curly (bodyPhrases statements), anywhere⟩ (inBody []) =
      .ok (terms [] statements, inBody (locals [] statements)) := by
    have numeric : Numeric [] := fun _ member => nomatch member
    rw [buildBody]
    exact buildStatements_eq numeric bindsFirst
  rw [mainPhrase, buildValue, buildFunction_eq]
  exact (bind_of_ok (buildType_void _)).trans (bind_of_ok body)

theorem bind_main (statements : List Statement) :
    Build.bind ⟨0, 0⟩ (.typed (.function 0) mainType anywhere) { start with program := beforeMain statements } =
      .ok ((), { start with program := built statements }) := by
  have found : slotIn? (beforeMain statements).tables ⟨0, 0⟩ = some (mainVar none) := rfl
  refine (bind_of_satisfies found ?_).trans ?_
  · rintro type ⟨⟩
    rfl
  · rfl

/-- The program of the statements at no place in particular. -/
theorem buildPhrases_phrase {statements : List Statement} (bindsFirst : wellScoped [] statements = true) :
    buildPhrases [phrase statements] = .ok (built statements) := by
  have areGlobals : [phrase statements].map Phrase.global? = [mainBinding statements].map some := rfl
  have fills : fill ((mainBinding statements).pending 0 0) (withGlobals [mainVar none]) =
      .ok ((), { start with program := built statements }) :=
    (bind_of_ok (buildValue_main bindsFirst)).trans (bind_main statements)
  refine buildPhrases_eq_ok_iff.mpr ⟨{ start with program := built statements }, ?_, rfl⟩
  refine (topLevel_eq_ok_iff areGlobals).mpr ⟨withGlobals [mainVar none], ?_, ?_, ?_⟩
  · exact (bind_of_ok (annotate_main statements)).trans rfl
  · exact (bind_of_ok fills).trans rfl
  · exact fun _ deferred => nomatch deferred

end Building

/-! ## Running -/

/-- A number that a variable may hold. -/
def number (n : Nat) : Term :=
  .intAt (UInt64.ofNat n) anywhere

/-- The tables have room for `count` variables, and those that the bound names mean hold what the names
stand for. -/
structure Agrees (bound : List String) (env : String → Nat) (count : Nat) (tables : Array VariableTable) :
    Prop where
  room : ∀ index < count, ∃ var, slotIn? tables ⟨localTable, index⟩ = some var
  holds : ∀ name ∈ bound, ∃ var, slotIn? tables (place bound name) = some var ∧
    var.value? = some (number (env name))

section Running

open Eval

variable {bound : List String} {env : String → Nat} {count : Nat} {tables : Array VariableTable}
  {functions : Array Function} {fuel : Nat}

/-- A value is stored under a name. The names may have changed, but all others mean what they meant. -/
theorem Agrees.write {bound' : List String} {name : String} {target : VarRef}
    (agrees : Agrees bound env count tables) (n : Nat) (found : ∃ var, slotIn? tables target = some var)
    (isPlace : place bound' name = target)
    (others : ∀ other ∈ bound', other ≠ name →
      other ∈ bound ∧ place bound' other = place bound other ∧ place bound other ≠ target) :
    Agrees bound' (Function.update env name n) count (written tables target (number n)) := by
  obtain ⟨var, found⟩ := found
  constructor
  · intro index inBounds
    obtain ⟨var, found⟩ := agrees.room index inBounds
    rw [slotIn?_written, found]
    split
    · exact ⟨_, rfl⟩
    · exact ⟨_, rfl⟩
  · intro other isBound
    by_cases same : other = name
    · subst same
      rw [isPlace, slotIn?_written, if_pos rfl, found, Function.update_self]
      exact ⟨_, rfl, rfl⟩
    · obtain ⟨wasBound, samePlace, apart⟩ := others other isBound same
      rw [samePlace, slotIn?_written, if_neg apart, Function.update_of_ne same]
      exact agrees.holds other wasBound

theorem evaluate_operand {operand : Operand} (agrees : Agrees bound env count tables)
    (isBound : operand.names ⊆ bound) (enough : 2 ≤ fuel) (output : String) :
    evaluate functions fuel (operand.term bound) ⟨tables, output⟩ =
      .ok (number (operand.value env)) ⟨tables, output⟩ := by
  obtain ⟨fuel, rfl⟩ := Nat.exists_eq_add_of_le' enough
  cases operand with
  | number literal => rfl
  | «variable» name =>
      replace isBound : name.text ∈ bound := by simpa [Operand.names] using isBound
      obtain ⟨var, found, held⟩ := agrees.holds name.text isBound
      have read : readVar (place bound name.text) ⟨tables, output⟩ = .ok var ⟨tables, output⟩ :=
        readVar_of_slot found
      refine (bind_of_ok read).trans ?_
      rw [held]
      rfl

theorem Sum.value_single (env : String → Nat) (first : Operand) :
    Sum.value env ⟨first, []⟩ = first.value env % 2 ^ 64 := by
  simp [Sum.value, Sum.operands]

theorem Sum.value_add (env : String → Nat) (sum : Sum) (operand : Operand) :
    (sum.add operand).value env = (sum.value env + operand.value env) % 2 ^ 64 := by
  simp [Sum.value, Sum.operands, Sum.add, ← Nat.add_assoc]

theorem number_mod (n : Nat) : number (n % 2 ^ 64) = number n := by
  rw [number, number]
  congr 1
  exact UInt64.ofNat_mod_size

/-- A sum nests as deep as it is long. -/
theorem evaluate_sum {sum : Sum} (agrees : Agrees bound env count tables) (isBound : sum.names ⊆ bound)
    (enough : sum.others.length + 2 ≤ fuel) (output : String) :
    evaluate functions fuel (sum.term bound) ⟨tables, output⟩ =
      .ok (number (sum.value env)) ⟨tables, output⟩ := by
  induction sum using Sum.induction generalizing fuel with
  | single first =>
      rw [Sum.value_single, number_mod]
      exact evaluate_operand agrees (by simpa using isBound) enough output
  | add sum operand ih =>
      rw [Sum.names_add, List.append_subset] at isBound
      rw [Sum.add, List.length_append, List.length_singleton] at enough
      obtain ⟨fuel, rfl⟩ := Nat.exists_eq_add_of_le' (show 1 ≤ fuel by omega)
      have left : evaluate functions fuel (sum.term bound) ⟨tables, output⟩ =
          .ok (number (sum.value env)) ⟨tables, output⟩ :=
        ih isBound.1 (by omega)
      have right : evaluate functions fuel (operand.term bound) ⟨tables, output⟩ =
          .ok (number (operand.value env)) ⟨tables, output⟩ :=
        evaluate_operand agrees isBound.2 (by omega) output
      rw [sum.term_add, Sum.value_add, number_mod, number, UInt64.ofNat_add]
      exact (bind_of_ok left).trans (bind_of_ok right)

theorem decimal_sum (env : String → Nat) (sum : Sum) :
    Text.decimal (UInt64.ofNat (sum.value env)).toNat = toString (sum.value env) := by
  have below : (UInt64.ofNat (sum.value env)).toNat = sum.value env :=
    UInt64.toNat_ofNat_of_lt' (Nat.mod_lt _ (by decide))
  rw [below]
  rfl

/-- One statement prints what it should and leaves tables that agree with the values behind it. -/
theorem runStatements_cons {statement : Statement} (agrees : Agrees bound env count tables)
    (isBound : statement.uses ⊆ bound) (room : bound.length + statement.binds.length ≤ count)
    (enough : statement.sum.others.length + 2 ≤ fuel) (rest : List Term) (output : String) :
    ∃ tables', Agrees (bound ++ statement.binds) (statement.update env) count tables' ∧
      runStatements (evaluate functions fuel) (statement.term bound :: rest) ⟨tables, output⟩ =
        runStatements (evaluate functions fuel) rest ⟨tables', output ++ statement.output env⟩ := by
  cases statement with
  | bind name sum =>
      have value : evaluate functions fuel (sum.term bound) ⟨tables, output⟩ =
          .ok (number (sum.value env)) ⟨tables, output⟩ := evaluate_sum agrees isBound enough output
      obtain ⟨var, found⟩ := agrees.room bound.length (Nat.lt_of_succ_le room)
      refine ⟨written tables ⟨localTable, bound.length⟩ (number (sum.value env)), ?_, ?_⟩
      · refine agrees.write _ ⟨var, found⟩ (place_append_same name.text bound) fun other isOther different => ?_
        have wasBound : other ∈ bound := by simpa [Statement.binds, different] using isOther
        refine ⟨wasBound, place_append_other bound (Ne.symm different), fun same => ?_⟩
        exact (place_lt wasBound).ne (congrArg VarRef.index same)
      · rw [Statement.output, String.append_empty]
        exact (bind_of_ok value).trans (bind_of_ok (writeVar_of_slot found _))
  | assign name sum =>
      rw [Statement.uses, List.cons_subset] at isBound
      have value : evaluate functions fuel (sum.term bound) ⟨tables, output⟩ =
          .ok (number (sum.value env)) ⟨tables, output⟩ := evaluate_sum agrees isBound.2 enough output
      obtain ⟨var, found, _⟩ := agrees.holds name.text isBound.1
      refine ⟨written tables (place bound name.text) (number (sum.value env)), ?_, ?_⟩
      · rw [Statement.binds, List.append_nil]
        exact agrees.write _ ⟨var, found⟩ rfl fun other wasBound different =>
          ⟨wasBound, rfl, fun same => different (place_injective wasBound isBound.1 same)⟩
      · rw [Statement.output, String.append_empty]
        exact (bind_of_ok value).trans (bind_of_ok (writeVar_of_slot found _))
  | print sum =>
      have value : evaluate functions fuel (sum.term bound) ⟨tables, output⟩ =
          .ok (number (sum.value env)) ⟨tables, output⟩ := evaluate_sum agrees isBound enough output
      refine ⟨tables, by rwa [Statement.binds, List.append_nil], ?_⟩
      rw [Statement.output, ← decimal_sum]
      exact bind_of_ok value

/-- All statements print what they should, one after the other. -/
theorem runStatements_terms {statements : List Statement} (functions : Array Function) (agrees : Agrees bound env count tables)
    (bindsFirst : wellScoped bound statements = true)
    (room : bound.length + (locals bound statements).length ≤ count)
    (enough : ∀ statement ∈ statements, statement.sum.others.length + 2 ≤ fuel) (output : String) :
    ∃ tables', runStatements (evaluate functions fuel) (terms bound statements) ⟨tables, output⟩ =
      .ok none ⟨tables', output ++ printed env statements⟩ := by
  induction statements generalizing bound env tables output with
  | nil => exact ⟨tables, by rw [printed, String.append_empty]; rfl⟩
  | cons statement rest ih =>
      obtain ⟨isBound, othersBound⟩ := wellScoped_cons_iff.mp bindsFirst
      obtain ⟨first, others⟩ := List.forall_mem_cons.mp enough
      have declared : (statement.locals bound).length = statement.binds.length := by
        rw [← statement.locals_names bound, List.length_map]
      rw [locals, List.length_append, declared, ← Nat.add_assoc] at room
      obtain ⟨tables₁, agrees₁, step⟩ := runStatements_cons agrees isBound (Nat.le_of_add_right_le room) first
        (terms (bound ++ statement.binds) rest) output
      obtain ⟨tables₂, run⟩ := ih agrees₁ othersBound (by rwa [List.length_append]) others
        (output ++ statement.output env)
      refine ⟨tables₂, ?_⟩
      rw [terms, step, run, printed, String.append_assoc]

theorem agrees_built (env : String → Nat) (statements : List Statement) :
    Agrees [] env (locals [] statements).length (built statements).tables where
  room index inBounds := by
    have slot : slotIn? (built statements).tables ⟨localTable, index⟩ = (locals [] statements)[index]? := by
      simp [slotIn?, built, localTable]
    exact ⟨_, slot.trans (List.getElem?_eq_getElem inBounds)⟩
  holds _ isBound := nomatch isBound

/-- The built program ends without a value and prints what it should. -/
theorem run_built (env : String → Nat) {statements : List Statement}
    (bindsFirst : wellScoped [] statements = true)
    (enough : ∀ statement ∈ statements, statement.sum.others.length + 2 ≤ fuel) :
    ((built statements).run fuel "").ending = .void ∧
      ((built statements).run fuel "").output = printed env statements := by
  obtain ⟨tables, run⟩ := runStatements_terms (built statements).functions (agrees_built env statements)
    bindsFirst (by simp) enough ""
  have entry : (built statements).entry = .ok 0 := rfl
  have called : call (built statements).functions fuel 0 ⟨(built statements).tables, ""⟩ =
      .ok (.voidAt anywhere) ⟨tables, printed env statements⟩ := by
    have fetched : (ofFault (fetch (built statements).functions 0) : Eval Function)
        ⟨(built statements).tables, ""⟩ =
          .ok ⟨anywhere, 1, .voidAt anywhere, localTable, terms [] statements⟩ ⟨(built statements).tables, ""⟩ :=
      rfl
    rw [String.empty_append] at run
    exact (bind_of_ok fetched).trans (bind_of_ok run)
  rw [Program.run_of_entry entry, Program.invoke, called]
  exact ⟨rfl, rfl⟩

end Running

/-! ## The whole pipeline -/

theorem judge_of_ending {outcome : RunOutcome} (ended : outcome.ending = .void) :
    Pipeline.judge outcome = .ok () := by
  obtain ⟨result, program, output⟩ := outcome
  unfold RunOutcome.ending at ended
  split at ended <;> simp only [reduceCtorEq] at ended
  rename_i isVoid
  cases isVoid
  rfl

theorem Statement.length_sum_le (statement : Statement) :
    statement.sum.others.length ≤ statement.tokens.length := by
  have summands : ∀ sum : Sum, sum.tokens.length = 2 * sum.others.length + 1 := by
    intro sum
    simp [Sum.tokens, List.length_flatMap, Nat.mul_comm]
  cases statement with
  | bind name sum | assign name sum | print sum =>
      rw [Statement.sum, Statement.tokens]
      simp only [List.length_cons, summands]
      omega

/-- Every layout of a program gives enough fuel for its sums. -/
theorem le_fuelFor {statements : List Statement} {source : String}
    (laid : LaidOut (words statements) source.toList) {statement : Statement} (member : statement ∈ statements) :
    statement.sum.others.length + 2 ≤ Pipeline.fuelFor source := by
  have written := laid.length_le (reads_words statements)
  have inside : (statement.tokens ++ [Token.semicolon]).length ≤
      (statements.flatMap fun statement => statement.tokens ++ [Token.semicolon]).length := by
    rw [List.flatMap_def]
    refine (List.sublist_flatten_of_mem ?_).length_le
    exact List.mem_map.mpr ⟨statement, member, rfl⟩
  have short := statement.length_sum_le
  simp only [tokens, List.length_cons, List.length_append, String.length_toList] at written inside
  unfold Pipeline.fuelFor
  omega

theorem check_of_parse {source : String} {tree : ParseTree} {phrases : List Phrase} {program : Program}
    (parsed : Pipeline.parse source = .ok tree) (top : tree.topLevel = .ok phrases)
    (builds : buildPhrases phrases = .ok program) : Pipeline.check source = .ok program := by
  rw [Pipeline.check, parsed]
  change Pipeline.buildTree tree = .ok program
  rw [Pipeline.buildTree, build, top]
  dsimp only
  rw [builds]
  rfl

/-- Every layout of a program is built into a program that runs like the one with no places. -/
theorem check_laidOut {statements : List Statement} {source : String}
    (laid : LaidOut (words statements) source.toList) (bindsFirst : wellScoped [] statements = true) :
    ∃ program, Pipeline.check source = .ok program ∧ (built statements).RunsLike program := by
  obtain ⟨tree, phrases, parsed, top, sameForms⟩ := parse_laidOut laid
  have alike : List.Forall₂ (Phrase.Like id) [phrase statements] phrases :=
    Phrase.forall₂_like (by simpa [Form.rename_id] using sameForms)
  have builds := buildPhrases_alike Function.injective_id rfl alike
  rw [buildPhrases_phrase bindsFirst] at builds
  cases built : buildPhrases phrases with
  | error abort =>
      rw [built] at builds
      cases abort <;> exact builds.elim
  | ok program =>
      rw [built] at builds
      exact ⟨program, check_of_parse parsed top built, builds⟩

/-- A straight-line program in which every name is bound before it is used ends without a value, and
prints what its statements mean, in whatever layout it is written. -/
theorem run_prints_meaning (statements : List Statement) (bindsFirst : wellScoped [] statements = true)
    (env : String → Nat) :
    Pipeline.run (text statements) = (.ok (), printed env statements) ∧
      ∀ source : String, LaidOut (words statements) source.toList →
        Pipeline.run source = (.ok (), printed env statements) := by
  have runs : ∀ source : String, LaidOut (words statements) source.toList →
      Pipeline.run source = (.ok (), printed env statements) := by
    intro source laid
    obtain ⟨program, checked, alike⟩ := check_laidOut laid bindsFirst
    obtain ⟨ended, printed⟩ := run_built env bindsFirst fun _ member => le_fuelFor laid member
    obtain ⟨sameEnding, sameOutput⟩ := alike (Pipeline.fuelFor source) ""
    rw [Pipeline.run, checked]
    dsimp only
    rw [judge_of_ending (sameEnding.trans ended), sameOutput, printed]
  exact ⟨runs _ (laidOut_text statements), runs⟩

/-- A program that binds a name again to a sum that passes 2^64, and has a variable named `main`. -/
def wrapping : List Statement :=
  let x : Name := ⟨"x", by decide⟩
  let main : Name := ⟨entryName, by decide⟩
  let digit (first : Fin 10) : Operand := .number ⟨first, [], by revert first; decide⟩
  let largest : Operand := .number ⟨1, [some 8, none, some 4, some 4, some 6, none, some 7, some 4, some 4, none,
    some 0, some 7, some 3, none, some 7, some 0, some 9, none, some 5, some 5, some 1, none, some 6, some 1,
    some 5], by decide⟩
  [.bind x ⟨largest, []⟩, .bind x ⟨.variable x, [digit 2]⟩, .bind main ⟨.variable x, [.variable x, digit 9]⟩,
    .assign x ⟨.variable main, [.variable x]⟩, .print ⟨.variable main, []⟩, .print ⟨.variable x, [digit 0]⟩]

theorem run_prints_meaning_of_wrapping :
    wellScoped [] wrapping = true ∧
    text wrapping = "main :: () -> void \x7b x :: 18_446_744_073_709_551_615; x :: x + 2; main :: x + x + 9; " ++
      "x = main + x; print_u64 main; print_u64 x + 0; \x7d;" ∧
    Pipeline.run (text wrapping) = (.ok (), "1112") ∧ Pipeline.run ("\n" ++ text wrapping) = (.ok (), "1112") := by
  have bindsFirst : wellScoped [] wrapping = true := by decide
  have meaning : printed (fun _ => 0) wrapping = "1112" := by decide
  obtain ⟨plain, others⟩ := run_prints_meaning wrapping bindsFirst fun _ => 0
  rw [meaning] at plain others
  exact ⟨bindsFirst, by decide, plain, others _ (by simpa using .blank rfl (laidOut_text wrapping))⟩

end Straight

end Rill
