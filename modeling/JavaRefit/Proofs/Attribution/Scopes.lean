/-
Which variable a name means.

A file with its types, read from its start, is a row of marks: it has
scopes that open and close, variables that are declared, names that are
used. Scopes are blocks, catch clauses, parameter lists and classes; a
class has its fields from the start, whatever their place in it. A declaration is over where its
value is, so a name in its own value comes before it. The annotations of a
declaration come after it, as they are read then; those of a class or a
method come before, in the scope around. What an annotation says of classes
and variables is in one mark, chain of words by chain (`Mention`).

What a name means is told by the marks before it (`Means`): it is the
last variable declared so in the innermost scope around it that has one,
where what lies in closed scopes does not count. It means one thing at
most (`Means.unique`), unless a class around has two fields of the name.

Chain: after attribution, which threads scopes through a file instead;
that both agree comes after.
-/
import JavaRefit.Attribution.Unit
import JavaRefit.Proofs.Tree.Induction

namespace JavaRefit

-- ================================================================== marks

/-- A chain of words in an annotation: the words, and the first of them with
its type where that is an expression. -/
structure Mention where
  words : String
  use? : Option (String × Option JavaType)

/-- What a place in a file has to say about variables. -/
inductive Mark where
  /-- A block, a catch clause or a parameter list starts. -/
  | opens
  /-- The body of a class with such fields starts. -/
  | opensClass (fields : List (String × Option JavaType))
  /-- The innermost scope ends. -/
  | closes
  /-- A variable is declared. -/
  | declares (name : String) (type : Option JavaType)
  /-- A single word is an expression of that type. -/
  | uses (name : String) (type : Option JavaType)
  /-- A word after `this` has that type. -/
  | usesField (name : String) (type : Option JavaType)
  /-- The arguments of an annotation have such chains of words in them. -/
  | annotates (mentions : List Mention)

mutual
/-- Class types as values, with all that lies above them. -/
def ClassType.decEq : (c d : ClassType) → Decidable (c = d)
  | .mk fqn supertype interfaces kind, .mk fqn' supertype' interfaces' kind' =>
    have := ClassType.decEqSuper supertype supertype'
    have := ClassType.decEqAll interfaces interfaces'
    decidable_of_iff
      (fqn = fqn' ∧ supertype = supertype' ∧ interfaces = interfaces' ∧
        kind = kind')
      (ClassType.mk.injEq ..).to_iff.symm

def ClassType.decEqSuper : (o p : Option ClassType) → Decidable (o = p)
  | none, none => isTrue rfl
  | none, some _ | some _, none => isFalse nofun
  | some c, some d =>
    have := ClassType.decEq c d
    decidable_of_iff (c = d) (Option.some.injEq ..).to_iff.symm

def ClassType.decEqAll : (cs ds : List ClassType) → Decidable (cs = ds)
  | [], [] => isTrue rfl
  | [], _ :: _ | _ :: _, [] => isFalse nofun
  | c :: cs, d :: ds =>
    have := ClassType.decEq c d
    have := ClassType.decEqAll cs ds
    decidable_of_iff (c = d ∧ cs = ds) (List.cons.injEq ..).to_iff.symm
end

instance : DecidableEq ClassType := ClassType.decEq

/-- Types as values. -/
def JavaType.decEq : (a b : JavaType) → Decidable (a = b)
  | .reference c, .reference d =>
    decidable_of_iff (c = d) (JavaType.reference.injEq ..).to_iff.symm
  | .primitive p, .primitive q =>
    decidable_of_iff (p = q) (JavaType.primitive.injEq ..).to_iff.symm
  | .array none, .array none => isTrue rfl
  | .array (some a), .array (some b) =>
    have := JavaType.decEq a b
    decidable_of_iff (a = b) ⟨fun h => h ▸ rfl, fun h =>
      Option.some.inj (JavaType.array.inj h)⟩
  | .array none, .array (some _) | .array (some _), .array none => isFalse nofun
  | .reference _, .primitive _ | .reference _, .array _ | .primitive _,
      .reference _
  | .primitive _, .array _ | .array _, .reference _ | .array _, .primitive _ =>
      isFalse nofun

instance : DecidableEq JavaType := JavaType.decEq

deriving instance DecidableEq for Mention

deriving instance DecidableEq for Mark

/-- A word after `this`. -/
def Expr.ownField (target : Expr) (name : String) (type : Option JavaType) :
    List Mark :=
  match target with
  | .ident i _ => if i.name = "this" then [.usesField name type] else []
  | _ => []

mutual
/-- The marks of an expression. Words in front of `.class` and words that spell
a class of the class path stand for classes and are no expressions. -/
def Expr.marks (cp : ClassPath) : Expr → List Mark
  | .ident i type => if i.name = "this" then [] else [.uses i.name type]
  | .access _ target name type =>
    if isClassLiteral name then if target.isNameChain then []
      else target.marks cp
    else if ((Expr.chainText? target name).filter cp.contains).isSome then []
    else target.marks cp ++ target.ownField name.element.name type
  | .call _ select _ args _ =>
      Expr.marksSelect cp select ++ Expr.marksAll cp args.elements
  | .new _ _ args _ _ => Expr.marksAll cp args.elements
  | .literal .. => []
  | .assign _ target value _ => target.marks cp ++ value.element.marks cp
  | .binary _ left _ right _ => left.marks cp ++ right.marks cp
  | .unary _ _ operand _ => operand.marks cp
  | .parens _ inner _ => inner.element.marks cp

def Expr.marksSelect (cp : ClassPath) : Option (RightPadded Expr) → List Mark
  | none => []
  | some p => p.element.marks cp

def Expr.marksAll (cp : ClassPath) : List (RightPadded Expr) → List Mark
  | [] => []
  | p :: ps => p.element.marks cp ++ Expr.marksAll cp ps
end

mutual
/-- The chains of words in an expression, each as long as it goes. -/
def Expr.chains : Expr → List Expr
  | .ident i type => [.ident i type]
  | .access lead target name type =>
    if target.dotted?.isSome then [.access lead target name type]
    else target.chains
  | .call _ select _ args _ =>
    Expr.chainsSelect select ++ Expr.chainsAll args.elements
  | .new _ _ args _ _ => Expr.chainsAll args.elements
  | .literal .. => []
  | .assign _ target value _ => target.chains ++ value.element.chains
  | .binary _ left _ right _ => left.chains ++ right.chains
  | .unary _ _ operand _ => operand.chains
  | .parens _ inner _ => inner.element.chains

def Expr.chainsSelect : Option (RightPadded Expr) → List Expr
  | none => []
  | some p => p.element.chains

def Expr.chainsAll : List (RightPadded Expr) → List Expr
  | [] => []
  | p :: ps => p.element.chains ++ Expr.chainsAll ps
end

/-- A chain of words has words. -/
theorem Expr.isSome_dotted?_of_isNameChain {e : Expr}
    (h : e.isNameChain = true) : e.dotted?.isSome = true := by
  induction e using Expr.induction_on with
  | ident i type => rfl
  | access lead target name type ih => exact Option.isSome_map.trans (ih h)
  | _ => cases h

/-- The chains in expressions in a row, each by itself. -/
theorem Expr.chainsAll_eq (ps : List (RightPadded Expr)) :
    chainsAll ps = ps.flatMap fun p => p.element.chains :=
  eq_flatMap rfl (fun _ _ => rfl) ps

/-- The marks of expressions in a row, each by itself. -/
theorem Expr.marksAll_eq (cp : ClassPath) (ps : List (RightPadded Expr)) :
    marksAll cp ps = ps.flatMap fun p => p.element.marks cp :=
  eq_flatMap rfl (fun _ _ => rfl) ps

/-- The word that is used by itself, with its type. -/
def Mark.used? : Mark → Option (String × Option JavaType)
  | uses name type => some (name, type)
  | _ => none

/-- What a chain of words mentions. -/
def Expr.mention (cp : ClassPath) (e : Expr) : Mention :=
  ⟨e.dotted?.getD "", (e.marks cp).findSome? Mark.used?⟩

/-- The chains of words in the arguments of an annotation. -/
def Modifier.chains : Modifier → List Expr
  | .annotated _ _ (some args) => Expr.chainsAll args.elements
  | _ => []

/-- The mark of an annotation that has arguments. -/
def Modifier.marks (cp : ClassPath) (m : Modifier) : List Mark :=
  match m with
  | .annotated _ _ (some _) =>
    [.annotates (m.chains.map (Expr.mention cp))]
  | _ => []

/-- What the mark of an annotation mentions are its chains. -/
theorem Modifier.eq_of_marks {cp : ClassPath} {m : Modifier}
    {ns : List Mention} (h : m.marks cp = [.annotates ns]) :
    ns = m.chains.map (Expr.mention cp) := by
  cases m with
  | keyword lead word => cases h
  | annotated lead name args =>
      cases args with
      | none => cases h
      | some c => exact (Mark.annotates.inj (List.cons.inj h).1).symm

/-- The marks of some modifiers. -/
def Modifier.marksAll (cp : ClassPath) (ms : List Modifier) : List Mark :=
  ms.flatMap (Modifier.marks cp)

/-- The marks of the value of a variable. -/
def Variable.marks (cp : ClassPath) (v : Variable) : List Mark :=
  match v.initializer with
  | none => []
  | some i => i.element.marks cp

/-- The marks of a declaration whose variables count from there on. -/
def Variables.marks (cp : ClassPath) (d : Variables) : List Mark :=
  (d.declarators.flatMap fun p =>
    p.element.marks cp ++ [.declares p.element.name.last d.typeTree.type]) ++
    Modifier.marksAll cp d.modifiers

/-- The marks of a declaration of fields: what its variables are worth. -/
def Variables.fieldMarks (cp : ClassPath) (d : Variables) : List Mark :=
  (d.declarators.flatMap fun p => p.element.marks cp) ++
    Modifier.marksAll cp d.modifiers

mutual

/-- The marks of a statement. -/
def Stmt.marks (cp : ClassPath) : Stmt → List Mark
  | .block b => Stmt.marksBlock cp b
  | .declaration d => d.marks cp
  | .expr e => e.marks cp
  | .empty _ => []
  | .tryCatch t => t.marks cp
  | .throwing _ exception => exception.marks cp
  | .returning _ none => []
  | .returning _ (some value) => value.marks cp
  | .ifElse _ condition thenPart elsePart =>
    condition.inner.element.marks cp ++ thenPart.element.marks cp ++
      Stmt.marksElse cp elsePart
  | .whileLoop _ condition body =>
      condition.inner.element.marks cp ++ body.element.marks cp

def Stmt.marksAll (cp : ClassPath) : List (RightPadded Stmt) → List Mark
  | [] => []
  | p :: ps => p.element.marks cp ++ Stmt.marksAll cp ps

/-- The marks of a block: those of its statements, in a scope. -/
def Stmt.marksBlock (cp : ClassPath) (b : Block Stmt) : List Mark :=
  .opens :: (Stmt.marksAll cp b.statements ++ [.closes])

/-- The marks of a `try`. -/
def Try.marks (cp : ClassPath) (t : Try Stmt) : List Mark :=
  Stmt.marksBlock cp t.body ++ Catch.marksAll cp t.catches ++
    Stmt.marksFinally cp t.finally?

/-- The marks of a catch clause; its parameter has a scope around that of its
body. -/
def Catch.marks (cp : ClassPath) (c : Catch Stmt) : List Mark :=
  .opens :: (c.parameter.inner.element.marks cp ++
    Stmt.marksBlock cp c.body ++ [.closes])

def Catch.marksAll (cp : ClassPath) : List (Catch Stmt) → List Mark
  | [] => []
  | c :: cs => c.marks cp ++ Catch.marksAll cp cs

def Stmt.marksFinally (cp : ClassPath) :
    Option (LeftPadded (Block Stmt)) → List Mark
  | none => []
  | some f => Stmt.marksBlock cp f.element

def Else.marks (cp : ClassPath) (e : Else Stmt) : List Mark :=
  e.body.element.marks cp

def Stmt.marksElse (cp : ClassPath) : Option (Else Stmt) → List Mark
  | none => []
  | some e => e.marks cp
end

/-- The marks of the body of a method. -/
def Stmt.marksBody (cp : ClassPath) : Option (Block Stmt) → List Mark
  | none => []
  | some b => Stmt.marksBlock cp b

/-- The marks of a method; its parameters have a scope around that of its
body. -/
def Method.marks (cp : ClassPath) (m : Method) : List Mark :=
  Modifier.marksAll cp m.modifiers ++
  .opens :: (m.parameters.elements.flatMap (fun p => p.element.marks cp) ++
    Stmt.marksBody cp m.body ++ [.closes])

/-- The fields that a declaration declares. -/
def Variables.fields (d : Variables) : List (String × Option JavaType) :=
  d.declarators.map fun p => (p.element.name.last, d.typeTree.type)

/-- The fields among some members. -/
def Member.fields : Member → List (String × Option JavaType)
  | .field d => d.fields
  | _ => []

/-- The fields of a class. -/
def ClassDecl.fields (c : JavaClass) : List (String × Option JavaType) :=
  c.body.statements.flatMap fun p => p.element.fields

mutual

/-- The marks of a member. -/
def Member.marks (cp : ClassPath) : Member → List Mark
  | .field d => d.fieldMarks cp
  | .method m => m.marks cp
  | .nested c => c.marks cp

/-- The marks of a class. -/
def ClassDecl.marks (cp : ClassPath) (c : ClassDecl Member) : List Mark :=
  Modifier.marksAll cp c.modifiers ++
    .opensClass c.fields :: (Member.marksBlock cp c.body ++ [.closes])

def Member.marksBlock (cp : ClassPath) (b : Block Member) : List Mark :=
  Member.marksAll cp b.statements

def Member.marksAll (cp : ClassPath) : List (RightPadded Member) → List Mark
  | [] => []
  | p :: ps => p.element.marks cp ++ Member.marksAll cp ps
end

/-- The marks of a file, in the order of its text. -/
def CompilationUnit.marks (cp : ClassPath) (cu : CompilationUnit) : List Mark :=
  cu.classes.flatMap (ClassDecl.marks cp)

-- ================================================================= scopes

namespace Mark

/-- A scope starts. -/
def opensScope : Mark → Bool
  | opens | opensClass _ => true
  | _ => false

/-- No scope starts or ends. -/
def staysInScope : Mark → Bool
  | declares .. | uses .. | usesField .. | annotates .. => true
  | _ => false

/-- The variable declared. -/
def declared? : Mark → Option String
  | declares name _ => some name
  | _ => none

end Mark

/-- The scopes that start in the marks end in them, and no others. -/
inductive Closed : List Mark → Prop
  | nil : Closed []
  | mark {m ms} : m.staysInScope = true → Closed ms → Closed (m :: ms)
  | scope {m inner ms} : m.opensScope = true → Closed inner → Closed ms →
      Closed (m :: (inner ++ .closes :: ms))

/-- The marks stay in a scope, or come back to it, and declare no such name in
it. -/
inductive Passed (name : String) : List Mark → Prop
  | nil : Passed name []
  | mark {m ms} : m.staysInScope = true → m.declared? ≠ some name →
      Passed name ms → Passed name (m :: ms)
  | scope {m inner ms} : m.opensScope = true → Closed inner → Passed name ms →
      Passed name (m :: (inner ++ .closes :: ms))

/-- After such marks the name means a variable of such a declared type, the
last that is declared so in the innermost scope with one; or no variable, if
no scope has one. Of a class with two fields of the name it may mean either. -/
inductive Means (name : String) : List Mark → Option (Option JavaType) → Prop
  | outermost {after} : Passed name after → Means name after none
  | declared {before type after} : Passed name after →
      Means name (before ++ .declares name type :: after) (some type)
  | field {before fields type after} :
      Passed name after → (name, type) ∈ fields →
      Means name (before ++ .opensClass fields :: after) (some type)
  | around {before meaning after} :
      Passed name after → Means name before meaning →
      Means name (before ++ .opens :: after) meaning
  | aroundClass {before fields meaning after} : Passed name after →
      fields.lookup name = none →
      Means name before meaning →
      Means name (before ++ .opensClass fields :: after) meaning

-- --------------------------------------------------------------- stretches

/-- Closed marks in a row are closed. -/
theorem Closed.append {ms ns : List Mark} (h : Closed ms) (h' : Closed ns) :
    Closed (ms ++ ns) := by
  induction h with
  | nil => exact h'
  | mark hm _ ih => exact .mark hm ih
  | @scope m inner ms hm hinner _ _ ih =>
      rw [List.cons_append, List.append_assoc, List.cons_append]
      exact .scope hm hinner ih

/-- Marks that are passed in a row are passed. -/
theorem Passed.append {name : String} {ms ns : List Mark} (h : Passed name ms)
    (h' : Passed name ns) : Passed name (ms ++ ns) := by
  induction h with
  | nil => exact h'
  | mark hm hdeclared _ ih => exact .mark hm hdeclared ih
  | @scope m inner ms hm hinner _ ih =>
      rw [List.cons_append, List.append_assoc, List.cons_append]
      exact .scope hm hinner ih

/-- Marks that are passed are closed. -/
theorem Passed.closed {name : String} {ms : List Mark} (h : Passed name ms) :
    Closed ms := by
  induction h with
  | nil => exact .nil
  | mark hm _ _ ih => exact .mark hm ih
  | scope hm hinner _ ih => exact .scope hm hinner ih

/-- A name goes on to mean what it means over marks that are passed. -/
theorem Means.append {name : String} {before after : List Mark}
    {meaning : Option (Option JavaType)} (h : Means name before meaning)
    (h' : Passed name after) : Means name (before ++ after) meaning := by
  cases h with
  | outermost hp => exact .outermost (hp.append h')
  | declared hp =>
      rw [List.append_assoc, List.cons_append]
      exact .declared (hp.append h')
  | field hp hf =>
      rw [List.append_assoc, List.cons_append]
      exact .field (hp.append h') hf
  | around hp hb =>
      rw [List.append_assoc, List.cons_append]
      exact .around (hp.append h') hb
  | aroundClass hp hf hb =>
      rw [List.append_assoc, List.cons_append]
      exact .aroundClass (hp.append h') hf hb

/-- Where the scopes that start within the marks have no such variable, what is
before them counts. -/
theorem Means.shows {name : String} {ms before : List Mark}
    {meaning : Option (Option JavaType)} (h : Means name ms none)
    (hb : Means name before meaning) : Means name (before ++ ms) meaning := by
  generalize hnone : (none : Option (Option JavaType)) = inner at h
  induction h with
  | outermost hp => exact hb.append hp
  | declared | field => cases hnone
  | around hp _ ih =>
      rw [← List.append_assoc]
      exact .around hp (ih hnone)
  | aroundClass hp hf _ ih =>
      rw [← List.append_assoc]
      exact .aroundClass hp hf (ih hnone)

-- ---------------------------------------------------------------- fields

/-- Of fields with distinct names each is found by its name. -/
theorem lookup_of_mem {fields : List (String × Option JavaType)}
    (h : (fields.map Prod.fst).Nodup) {name : String} {type : Option JavaType}
    (hmem : (name, type) ∈ fields) : fields.lookup name = some type := by
  induction fields with
  | nil => cases hmem
  | cons field fields ih =>
      obtain ⟨hfresh, hfields⟩ := List.nodup_cons.1 h
      obtain heq | hmem := List.mem_cons.1 hmem
      · rw [← heq, List.lookup_cons_self]
      · have hne : name ≠ field.1 := fun heq =>
          hfresh (List.mem_map.2 ⟨_, hmem, heq⟩)
        rw [List.lookup_cons, beq_false_of_ne hne]
        exact ih hfields hmem

/-- What is found is one of the fields. -/
theorem mem_of_lookup {fields : List (String × Option JavaType)}
    {name : String} {type : Option JavaType}
    (h : fields.lookup name = some type) : (name, type) ∈ fields := by
  obtain ⟨before, after, rfl, -⟩ := List.lookup_eq_some_iff.1 h
  exact List.mem_append_right _ List.mem_cons_self

/-- What is not found is none of the fields. -/
theorem not_mem_of_lookup {fields : List (String × Option JavaType)}
    {name : String} (h : fields.lookup name = none) (type : Option JavaType) :
    (name, type) ∉ fields := by
  rw [List.lookup_eq_none_iff] at h
  intro hmem
  exact bne_iff_ne.1 (h _ hmem) rfl

-- -------------------------------------------------------------- one meaning

namespace Mark

/-- How much deeper in scopes the marks lead. -/
def depth : List Mark → Int
  | [] => 0
  | .opens :: ms | .opensClass _ :: ms => depth ms + 1
  | .closes :: ms => depth ms - 1
  | _ :: ms => depth ms

theorem depth_of_staysInScope {m : Mark} {ms : List Mark}
    (h : m.staysInScope = true) : depth (m :: ms) = depth ms := by
  cases m with
  | declares | uses | usesField | annotates => rfl
  | _ => cases h

theorem depth_of_opensScope {m : Mark} {ms : List Mark}
    (h : m.opensScope = true) : depth (m :: ms) = depth ms + 1 := by
  cases m with
  | opens | opensClass => rfl
  | _ => cases h

theorem depth_closes (ms : List Mark) :
    depth (.closes :: ms) = depth ms - 1 := rfl

/-- Marks in a row lead as deep as both together. -/
theorem depth_append (ms ns : List Mark) :
    depth (ms ++ ns) = depth ms + depth ns := by
  fun_induction depth ms with
  | case1 => rw [List.nil_append, Int.zero_add]
  | case2 ms ih | case3 _ ms ih =>
      rw [List.cons_append, depth_of_opensScope rfl, ih]
      omega
  | case4 ms ih =>
      rw [List.cons_append, depth_closes, ih]
      omega
  | case5 m ms hopens hopensClass hcloses ih =>
      cases m with
      | declares | uses | usesField | annotates => exact ih
      | opens => exact absurd rfl hopens
      | opensClass fields => exact absurd rfl (hopensClass fields)
      | closes => exact absurd rfl hcloses

/-- Whoever looks for the name, going back, stops here: its scope starts, or
the name is declared. -/
def Stops (name : String) (m : Mark) : Prop :=
  m.opensScope = true ∨ m.declared? = some name

/-- No search stops where a scope ends. -/
theorem Stops.ne_closes {name : String} {m : Mark} (h : m.Stops name) :
    m ≠ .closes := by
  rintro rfl
  obtain h | h := h <;> cases h

end Mark

open Mark

/-- Closed marks lead nowhere. -/
theorem Closed.depth_eq {ms : List Mark} (h : Closed ms) : depth ms = 0 := by
  induction h with
  | nil => rfl
  | mark hm _ ih => rw [depth_of_staysInScope hm, ih]
  | scope hm _ _ ihinner ih =>
      rw [depth_of_opensScope hm, depth_append, depth_closes, ihinner, ih]
      rfl

/-- What is left of closed marks can only lead out of scopes. -/
theorem Closed.depth_le {ms : List Mark} (h : Closed ms)
    {before after : List Mark} (hms : ms = before ++ after) :
    depth after ≤ 0 := by
  induction h generalizing before after with
  | nil =>
      obtain ⟨-, rfl⟩ := List.append_eq_nil_iff.1 hms.symm
      exact Int.le_refl 0
  | @mark m ms hm h ih =>
      obtain ⟨-, rfl⟩ | ⟨before, -, hms⟩ := List.append_eq_cons_iff.1 hms.symm
      · exact Int.le_of_eq (Closed.mark hm h).depth_eq
      · exact ih hms
  | @scope m inner ms hm hinner h ihinner ih =>
      obtain ⟨-, rfl⟩ | ⟨before, -, hms⟩ := List.append_eq_cons_iff.1 hms.symm
      · exact Int.le_of_eq (Closed.scope hm hinner h).depth_eq
      · obtain ⟨d, -, hafter⟩ | ⟨d, hd, hafter⟩ :=
          List.append_eq_append_iff.1 hms
        · obtain ⟨-, rfl⟩ | ⟨d', -, hms'⟩ :=
            List.append_eq_cons_iff.1 hafter.symm
          · rw [depth_closes, h.depth_eq]
            decide
          · exact ih hms'
        · have := ihinner hd
          rw [hafter, depth_append, depth_closes, h.depth_eq]
          omega

/-- After what could stop the search, passed marks lead out of a scope. -/
theorem Passed.depth_lt {name : String} {ms : List Mark} (h : Passed name ms)
    {before : List Mark} {m : Mark} {after : List Mark}
    (hms : ms = before ++ m :: after) (hm : m.Stops name) :
    depth after < 0 := by
  induction h generalizing before after with
  | nil => cases (List.append_eq_nil_iff.1 hms.symm).2
  | @mark m' ms hstays hdeclared h ih =>
      obtain ⟨-, heq⟩ | ⟨before, -, hms⟩ := List.append_eq_cons_iff.1 hms.symm
      · cases heq
        obtain hopens | hname := hm
        · cases m with
          | opens | opensClass | closes => cases hstays
          | _ => cases hopens
        · exact absurd hname hdeclared
      · exact ih hms
  | @scope m' inner ms hopens hinner h ih =>
      obtain ⟨-, heq⟩ | ⟨before, -, hms⟩ := List.append_eq_cons_iff.1 hms.symm
      · cases heq
        rw [depth_append, depth_closes, hinner.depth_eq, h.closed.depth_eq]
        decide
      · obtain ⟨d, -, hafter⟩ | ⟨d, hd, hafter⟩ :=
          List.append_eq_append_iff.1 hms
        · obtain ⟨-, heq⟩ | ⟨d', -, hms'⟩ :=
            List.append_eq_cons_iff.1 hafter.symm
          · cases heq
            exact absurd rfl hm.ne_closes
          · exact ih hms'
        · obtain ⟨-, heq⟩ | ⟨d', rfl, hms'⟩ :=
            List.append_eq_cons_iff.1 hafter.symm
          · cases heq
            exact absurd rfl hm.ne_closes
          · have := hinner.depth_le (hd.trans (List.append_cons before m d'))
            rw [hms', depth_append, depth_closes, h.closed.depth_eq]
            omega

section

variable {name : String} {before before' after after' : List Mark} {m m' : Mark}

/-- Marks that are passed hold nothing to stop at. -/
theorem Passed.not_stop (h : Passed name after) (hm : m.Stops name) :
    ¬ Passed name (before ++ m :: after) := by
  intro hall
  have := hall.depth_lt rfl hm
  rw [h.closed.depth_eq] at this
  exact absurd this (Int.lt_irrefl 0)

/-- The search stops in one place. -/
theorem Passed.stop_unique (h : Passed name after) (h' : Passed name after')
    (hm : m.Stops name) (hm' : m'.Stops name)
    (heq : before ++ m :: after = before' ++ m' :: after') :
    before = before' ∧ m = m' ∧ after = after' := by
  obtain ⟨d, hd, hrest⟩ | ⟨d, hd, hrest⟩ := List.append_eq_append_iff.1 heq
  · obtain ⟨rfl, hrest⟩ | ⟨d, rfl, rfl⟩ := List.cons_eq_append_iff.1 hrest
    · cases hrest
      exact ⟨by simpa using hd.symm, rfl, rfl⟩
    · exact absurd h (h'.not_stop hm')
  · obtain ⟨rfl, hrest⟩ | ⟨d, rfl, rfl⟩ := List.cons_eq_append_iff.1 hrest
    · cases hrest
      exact ⟨by simpa using hd, rfl, rfl⟩
    · exact absurd h' (h.not_stop hm)

end

/-- A class with such fields is around the place after the marks. -/
inductive IsAround (fields : List (String × Option JavaType)) :
    List Mark → Prop
  | innermost {before after} : Closed after →
      IsAround fields (before ++ .opensClass fields :: after)
  | outer {before m after} : m.opensScope = true → Closed after →
      IsAround fields before → IsAround fields (before ++ m :: after)

/-- A class around the place is among the marks. -/
theorem IsAround.mem {fields : List (String × Option JavaType)}
    {ms : List Mark} (h : IsAround fields ms) : .opensClass fields ∈ ms := by
  induction h with
  | innermost => exact List.mem_append_right _ List.mem_cons_self
  | outer _ _ _ ih => exact List.mem_append_left _ ih

/-- No class around the place after the marks has two fields of a name. -/
def DistinctAround (ms : List Mark) : Prop :=
  ∀ fields, IsAround fields ms → (fields.map Prod.fst).Nodup

/-- What holds of the classes around a place holds of those around an outer
one. -/
theorem DistinctAround.outer {before after : List Mark} {m : Mark}
    (h : DistinctAround (before ++ m :: after)) (hm : m.opensScope = true)
    (hafter : Closed after) : DistinctAround before :=
  fun fields haround => h fields (.outer hm hafter haround)

/-- What a name may mean after a mark that the search for it stops at. -/
def Mark.Gives (name : String) (before : List Mark)
    (meaning : Option (Option JavaType)) : Mark → Prop
  | .declares _ type => meaning = some type
  | .opens => Means name before meaning
  | .opensClass fields =>
      (∃ type, meaning = some type ∧ (name, type) ∈ fields) ∨
    fields.lookup name = none ∧ Means name before meaning
  | _ => False

section

variable {name : String} {before after : List Mark} {m : Mark}
  {meaning meaning' : Option (Option JavaType)}

/-- The marks are passed, or there is one to stop at. -/
theorem Means.passed_or_gives {ms : List Mark} (h : Means name ms meaning) :
    Passed name ms ∧ meaning = none ∨ ∃ before m after,
      ms = before ++ m :: after ∧ Passed name after ∧ m.Stops name ∧
        m.Gives name before meaning := by
  cases h with
  | outermost hp => exact .inl ⟨hp, rfl⟩
  | declared hp => exact .inr ⟨_, _, _, rfl, hp, .inr rfl, rfl⟩
  | field hp hf => exact .inr ⟨_, _, _, rfl, hp, .inl rfl, .inl ⟨_, rfl, hf⟩⟩
  | around hp hb => exact .inr ⟨_, _, _, rfl, hp, .inl rfl, hb⟩
  | aroundClass hp hf hb =>
      exact .inr ⟨_, _, _, rfl, hp, .inl rfl, .inr ⟨hf, hb⟩⟩

/-- What a name means is what the mark to stop at gives. -/
theorem Means.gives (h : Means name (before ++ m :: after) meaning)
    (hp : Passed name after) (hm : m.Stops name) :
    m.Gives name before meaning := by
  obtain ⟨hall, -⟩ | ⟨b, m', a, heq, hp', hm', hgives⟩ := h.passed_or_gives
  · exact absurd hall (hp.not_stop hm)
  · obtain ⟨rfl, rfl, -⟩ := hp.stop_unique hp' hm hm' heq
    exact hgives

/-- What a mark gives is what the name may mean after it. -/
theorem Mark.Gives.means (h : m.Gives name before meaning)
    (hp : Passed name after) (hm : m.Stops name) :
    Means name (before ++ m :: after) meaning := by
  cases m with
  | declares declared type =>
      obtain hopens | hname := hm
      · cases hopens
      · obtain rfl := Option.some.inj hname
        obtain rfl : meaning = some type := h
        exact .declared hp
  | opens => exact .around hp h
  | opensClass fields =>
      obtain ⟨type, rfl, hmem⟩ | ⟨hnone, hb⟩ := h
      · exact .field hp hmem
      · exact .aroundClass hp hnone hb
  | _ => cases h

/-- Whether a name means a variable is one thing; and so is what it means,
where no class around the place has two fields of it. -/
theorem Means.agree {ms : List Mark} (h : Means name ms meaning)
    (h' : Means name ms meaning') :
    meaning.isSome = meaning'.isSome ∧
      (DistinctAround ms → meaning = meaning') := by
  induction h with
  | outermost hp =>
      obtain ⟨-, rfl⟩ | ⟨b, m, a, rfl, hp', hm, -⟩ := h'.passed_or_gives
      · exact ⟨rfl, fun _ => rfl⟩
      · exact absurd hp (hp'.not_stop hm)
  | declared hp =>
      have hgives : meaning' = _ := h'.gives hp (.inr rfl)
      rw [hgives]
      exact ⟨rfl, fun _ => rfl⟩
  | @field before fields type after hp hf =>
      obtain ⟨type', rfl, hf'⟩ | ⟨hnone, -⟩ := h'.gives hp (.inl rfl)
      · refine ⟨rfl, fun hdistinct => ?_⟩
        have hnodup := hdistinct fields (.innermost hp.closed)
        have hlookup := lookup_of_mem hnodup hf
        rw [lookup_of_mem hnodup hf'] at hlookup
        exact hlookup.symm
      · exact absurd hf (not_mem_of_lookup hnone type)
  | around hp _ ih =>
      obtain ⟨hsome, hone⟩ := ih (h'.gives hp (.inl rfl))
      exact ⟨hsome, fun hdistinct => hone (hdistinct.outer rfl hp.closed)⟩
  | aroundClass hp hnone _ ih =>
      obtain ⟨type', rfl, hf'⟩ | ⟨-, hb⟩ := h'.gives hp (.inl rfl)
      · exact absurd hf' (not_mem_of_lookup hnone type')
      · obtain ⟨hsome, hone⟩ := ih hb
        exact ⟨hsome, fun hdistinct => hone (hdistinct.outer rfl hp.closed)⟩

/-- A name that means no variable means none in any way. -/
theorem Means.eq_none {ms : List Mark} (h : Means name ms meaning)
    (hnone : Means name ms none) : meaning = none :=
  Option.isNone_iff_eq_none.1 (Option.isSome_eq_false_iff.1 (h.agree hnone).1)

/-- A name means one thing at most, where no class around the place has two
fields of a name. -/
theorem Means.unique {ms : List Mark} (hdistinct : DistinctAround ms)
    (h : Means name ms meaning) (h' : Means name ms meaning') :
    meaning = meaning' :=
  (h.agree h').2 hdistinct

/-- Marks that are passed do not change what a name may mean. -/
theorem Means.of_append (h : Means name (before ++ after) meaning)
    (hb : Means name before meaning') (hp : Passed name after) :
    Means name before meaning := by
  obtain ⟨hall, -⟩ | ⟨b, m, a, rfl, hp', hm, -⟩ := hb.passed_or_gives
  · rw [h.eq_none (.outermost (hall.append hp))]
    exact .outermost hall
  · rw [List.append_assoc, List.cons_append] at h
    exact (h.gives (hp'.append hp) hm).means hp' hm

/-- What a name means is a variable of the scopes that start within the marks,
or else what it means before them. -/
theorem Means.inside_or_before {inside : List Mark}
    {local? : Option (Option JavaType)} (hinside : Means name inside local?)
    (hb : Means name before meaning')
    (h : Means name (before ++ inside) meaning) :
    meaning.isSome = true ∧ Means name inside meaning ∨
      Means name inside none ∧ Means name before meaning := by
  induction hinside with
  | outermost hp => exact .inr ⟨.outermost hp, h.of_append hb hp⟩
  | declared hp =>
      rw [← List.append_assoc] at h
      have hgives : meaning = _ := h.gives hp (.inr rfl)
      rw [hgives]
      exact .inl ⟨rfl, .declared hp⟩
  | @field _ fields type _ hp hf =>
      rw [← List.append_assoc] at h
      obtain ⟨type', rfl, hf'⟩ | ⟨hnone, -⟩ := h.gives hp (.inl rfl)
      · exact .inl ⟨rfl, .field hp hf'⟩
      · exact absurd hf (not_mem_of_lookup hnone type)
  | around hp _ ih =>
      rw [← List.append_assoc] at h
      have hgives : Means _ _ meaning := h.gives hp (.inl rfl)
      exact (ih hgives).imp (fun hsome => ⟨hsome.1, .around hp hsome.2⟩)
        fun hnone => ⟨.around hp hnone.1, hnone.2⟩
  | aroundClass hp hnone _ ih =>
      rw [← List.append_assoc] at h
      obtain ⟨type', rfl, hf'⟩ | ⟨-, hgives⟩ := h.gives hp (.inl rfl)
      · exact absurd hf' (not_mem_of_lookup hnone type')
      · exact (ih hgives).imp
          (fun hsome => ⟨hsome.1, .aroundClass hp hnone hsome.2⟩)
          fun hfree => ⟨.aroundClass hp hnone hfree.1, hfree.2⟩

end

end JavaRefit
