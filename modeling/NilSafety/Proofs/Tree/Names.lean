import Mathlib.Logic.Equiv.List
import NilSafety.Proofs.Tree.Bodies
import NilSafety.Proofs.Tree.Walks

/-!
Contract: the symbols in trees.

Owns:
- all occurrences of symbols in type notes, expressions, declarations and units;
- trees with their symbols replaced one by one;
- trees resolved to text, in which equal symbols stand for equal texts whatever
  table they came from;
- that a tree resolves if a table knows all the symbols that occur in it.

Does not own: where a symbol is bound.
-/

namespace NilSafety

/-! ### Type notes -/

namespace TypeNote

mutual

/-- The note with other symbols. -/
def mapSymbols (rename : Symbol → Symbol) : TypeNote → TypeNote
  | .named name span => .named (rename name) span
  | .generic name args span => .generic (rename name) (mapSymbolsOfList rename args) span
  | .array element span => .array (mapSymbols rename element) span
  | .function params result span =>
      .function (mapSymbolsOfList rename params) (mapSymbols rename result) span
  | .optional inner span => .optional (mapSymbols rename inner) span
  | .inferred span => .inferred span

/-- The notes with other symbols. -/
def mapSymbolsOfList (rename : Symbol → Symbol) : List TypeNote → List TypeNote
  | [] => []
  | note :: rest => mapSymbols rename note :: mapSymbolsOfList rename rest

end

mutual

theorem mapSymbols_congr
    {rename rename' : Symbol → Symbol}
    (note : TypeNote)
    (agree : ∀ symbol ∈ note.symbols, rename symbol = rename' symbol) :
    note.mapSymbols rename = note.mapSymbols rename' := by
  cases note with
  | named name span => simp only [mapSymbols, agree name List.mem_cons_self]
  | generic name args span =>
      simp only [mapSymbols, agree name List.mem_cons_self]
      rw [mapSymbolsOfList_congr args fun symbol member =>
        agree symbol (List.mem_cons_of_mem name member)]
  | array element span =>
      simp only [mapSymbols]
      rw [mapSymbols_congr element agree]
  | function params result span =>
      simp only [mapSymbols]
      rw [mapSymbolsOfList_congr params fun symbol member =>
          agree symbol (List.mem_append_left _ member),
        mapSymbols_congr result fun symbol member => agree symbol (List.mem_append_right _ member)]
  | optional inner span =>
      simp only [mapSymbols]
      rw [mapSymbols_congr inner agree]
  | inferred span => rfl

theorem mapSymbolsOfList_congr
    {rename rename' : Symbol → Symbol}
    (notes : List TypeNote)
    (agree : ∀ symbol ∈ symbolsOfList notes, rename symbol = rename' symbol) :
    mapSymbolsOfList rename notes = mapSymbolsOfList rename' notes := by
  cases notes with
  | nil => rfl
  | cons note rest =>
      simp only [mapSymbolsOfList]
      rw [mapSymbols_congr note fun symbol member => agree symbol (List.mem_append_left _ member),
        mapSymbolsOfList_congr rest fun symbol member =>
          agree symbol (List.mem_append_right _ member)]

end

mutual

theorem mapSymbols_id (note : TypeNote) : note.mapSymbols id = note := by
  cases note with
  | named | inferred => rfl
  | generic name args span => simp only [mapSymbols, mapSymbolsOfList_id args, id]
  | array element span => simp only [mapSymbols, mapSymbols_id element]
  | function params result span =>
      simp only [mapSymbols, mapSymbolsOfList_id params, mapSymbols_id result]
  | optional inner span => simp only [mapSymbols, mapSymbols_id inner]

theorem mapSymbolsOfList_id (notes : List TypeNote) : mapSymbolsOfList id notes = notes := by
  cases notes with
  | nil => rfl
  | cons note rest => simp only [mapSymbolsOfList, mapSymbols_id note, mapSymbolsOfList_id rest]

end

end TypeNote

/-! ### Single nodes -/

namespace Stmt

/-- The statement with other symbols of its own. -/
def mapOwn (rename : Symbol → Symbol) : Stmt → Stmt
  | bind name isMutable note init span =>
      bind (rename name) isMutable (note.map (TypeNote.mapSymbols rename)) init span
  | stmt => stmt

@[simp] theorem children_mapOwn (rename : Symbol → Symbol) (stmt : Stmt) :
    (stmt.mapOwn rename).children = stmt.children := by
  cases stmt <;> rfl

theorem mapOwn_refill (rename : Symbol → Symbol) (stmt : Stmt) (exprs : List Expr) :
    (stmt.refill exprs).mapOwn rename = (stmt.mapOwn rename).refill exprs := by
  cases stmt <;> rfl

theorem ownSymbols_refill (stmt : Stmt) (exprs : List Expr) :
    (stmt.refill exprs).ownSymbols = stmt.ownSymbols := by
  cases stmt <;> rfl

theorem ownSymbols_refillEach
    (stmts : List Stmt)
    {exprs : List Expr}
    (fits : exprs.length = (stmts.flatMap children).length) :
    (refillEach children refill stmts exprs).flatMap ownSymbols = stmts.flatMap ownSymbols := by
  rw [List.flatMap_def, List.flatMap_def,
    map_refillEach (fun stmt exprs _ => stmt.ownSymbols_refill exprs) stmts fits]

theorem mapOwn_congr
    {rename rename' : Symbol → Symbol}
    (stmt : Stmt)
    (agree : ∀ symbol ∈ stmt.ownSymbols, rename symbol = rename' symbol) :
    stmt.mapOwn rename = stmt.mapOwn rename' := by
  cases stmt with
  | bind name isMutable note init span =>
      have sameName := agree name List.mem_cons_self
      cases note with
      | none => simp only [mapOwn, sameName, Option.map_none]
      | some note =>
          have sameNote := note.mapSymbols_congr fun symbol member =>
            agree symbol (List.mem_cons_of_mem name member)
          simp only [mapOwn, sameName, sameNote, Option.map_some]
  | _ => rfl

theorem mapOwn_id (stmt : Stmt) : stmt.mapOwn id = stmt := by
  cases stmt with
  | bind name isMutable note init span =>
      cases note with
      | none => rfl
      | some note => simp only [mapOwn, Option.map_some, note.mapSymbols_id, id]
  | _ => rfl

end Stmt

/-- The argument under another label. -/
def Arg.mapLabel (rename : Symbol → Symbol) (arg : Arg) : Arg :=
  .mk (arg.label.map rename) arg.value

/-- The initializer of another field. -/
def Init.mapName (rename : Symbol → Symbol) (init : Init) : Init :=
  .mk (rename init.name) init.value

theorem Arg.labels_zipWith
    {args : List Arg}
    {values : List Expr}
    (fits : values.length = args.length) :
    (args.zipWith Arg.withValue values).filterMap Arg.label = args.filterMap Arg.label := by
  have kept : (args.zipWith Arg.withValue values).map Arg.label = args.map Arg.label :=
    Expr.map_zipWith_withValue (fun _ _ => rfl) fits
  have labels := congrArg (List.filterMap id) kept
  rwa [List.filterMap_map, List.filterMap_map, Function.id_comp] at labels

theorem Init.names_zipWith
    {inits : List Init}
    {values : List Expr}
    (fits : values.length = inits.length) :
    (inits.zipWith Init.withValue values).map Init.name = inits.map Init.name :=
  Expr.map_zipWith_withValue (fun _ _ => rfl) fits

theorem Arg.mapLabel_congr
    {rename rename' : Symbol → Symbol}
    (args : List Arg)
    (agree : ∀ symbol ∈ args.filterMap Arg.label, rename symbol = rename' symbol) :
    args.map (mapLabel rename) = args.map (mapLabel rename') := by
  apply List.map_congr_left
  intro arg isArg
  unfold mapLabel
  rw [Option.map_congr fun symbol isLabel =>
    agree symbol (List.mem_filterMap.mpr ⟨arg, isArg, isLabel⟩)]

theorem Init.mapName_congr
    {rename rename' : Symbol → Symbol}
    (inits : List Init)
    (agree : ∀ symbol ∈ inits.map Init.name, rename symbol = rename' symbol) :
    inits.map (mapName rename) = inits.map (mapName rename') := by
  apply List.map_congr_left
  intro init isInit
  unfold mapName
  rw [agree init.name (List.mem_map_of_mem isInit)]

theorem Arg.mapLabel_id (arg : Arg) : arg.mapLabel id = arg := by
  obtain ⟨label, value⟩ := arg
  cases label <;> rfl

theorem Init.mapName_id (init : Init) : init.mapName id = init := by
  cases init
  rfl

namespace Expr

/-- The symbols that a node carries itself, those of its statements, arguments and
initializers included. -/
def localSymbols (expr : Expr) : List Symbol :=
  expr.ownSymbols ++ expr.statements.flatMap Stmt.ownSymbols

/-- The node with other symbols of its own. -/
def mapOwn (rename : Symbol → Symbol) : Expr → Expr
  | str value span => str (rename value) span
  | ident name span => ident (rename name) span
  | path segments span => path (segments.map rename) span
  | block stmts tail span => block (stmts.map (Stmt.mapOwn rename)) tail span
  | call callee args span => call callee (args.map (Arg.mapLabel rename)) span
  | method receiver name args marked span =>
      method receiver (rename name) (args.map (Arg.mapLabel rename)) marked span
  | field object name marked span => field object (rename name) marked span
  | construct name inits span => construct (rename name) (inits.map (Init.mapName rename)) span
  | expr => expr

theorem children_mapOwn (rename : Symbol → Symbol) (expr : Expr) :
    (expr.mapOwn rename).children = expr.children := by
  cases expr <;> simp [mapOwn, children, List.flatMap_map, Function.comp_def, Arg.mapLabel,
    Init.mapName, Arg.value, Init.value]

theorem mapOwn_refill (rename : Symbol → Symbol) (expr : Expr) (exprs : List Expr) :
    (expr.refill exprs).mapOwn rename = (expr.mapOwn rename).refill exprs := by
  cases expr with
  | block stmts tail span =>
      have each := map_refillEach_image
        (fun stmt => congrArg List.length (stmt.children_mapOwn rename))
        (fun stmt exprs => (stmt.mapOwn_refill rename exprs).trans
          (congrArg (Stmt.refill · _) exprs.map_id.symm)) stmts exprs
      rw [List.map_id] at each
      simp only [refill, mapOwn, each, List.flatMap_map, Stmt.children_mapOwn]
  | call | method | construct =>
      simp only [refill, mapOwn, List.map_zipWith, List.zipWith_map_left]
      rfl
  | _ => rfl

theorem localSymbols_refill
    (expr : Expr)
    {exprs : List Expr}
    (fits : exprs.length = expr.children.length) :
    (expr.refill exprs).localSymbols = expr.localSymbols := by
  cases expr with
  | block stmts tail span =>
      rw [children, List.length_append] at fits
      rw [refill_block fits]
      exact Stmt.ownSymbols_refillEach stmts (length_take_of_eq_add fits)
  | call callee args span | method callee name args marked span =>
      obtain _ | ⟨first, values⟩ := exprs
      · cases fits
      · have fitsArgs : values.length = args.length := by simpa [children] using fits
        simp only [localSymbols, ownSymbols, statements, refill, List.tail_cons,
          Arg.labels_zipWith fitsArgs]
  | construct name inits span =>
      have fitsInits : exprs.length = inits.length := by simpa [children] using fits
      simp only [localSymbols, ownSymbols, statements, refill, Init.names_zipWith fitsInits]
  | _ => rfl

theorem mapOwn_congr
    {rename rename' : Symbol → Symbol}
    (expr : Expr)
    (agree : ∀ symbol ∈ expr.localSymbols, rename symbol = rename' symbol) :
    expr.mapOwn rename = expr.mapOwn rename' := by
  have own : ∀ symbol ∈ expr.ownSymbols, rename symbol = rename' symbol :=
    fun symbol member => agree symbol (List.mem_append_left _ member)
  cases expr with
  | str name span | ident name span | field object name marked span =>
      simp only [mapOwn, own name List.mem_cons_self]
  | path segments span =>
      have each : segments.map rename = segments.map rename' := List.map_congr_left own
      simp only [mapOwn, each]
  | block stmts tail span =>
      have each : stmts.map (Stmt.mapOwn rename) = stmts.map (Stmt.mapOwn rename') :=
        List.map_congr_left fun stmt isStmt => stmt.mapOwn_congr fun symbol member =>
          agree symbol (List.mem_append_right _ (List.mem_flatMap_of_mem isStmt member))
      simp only [mapOwn, each]
  | call callee args span =>
      simp only [mapOwn, Arg.mapLabel_congr args own]
  | method receiver name args marked span =>
      simp only [mapOwn, own name List.mem_cons_self, Arg.mapLabel_congr args fun symbol member =>
        own symbol (List.mem_cons_of_mem name member)]
  | construct name inits span =>
      simp only [mapOwn, own name List.mem_cons_self, Init.mapName_congr inits fun symbol member =>
        own symbol (List.mem_cons_of_mem name member)]
  | _ => rfl

theorem mapOwn_id (expr : Expr) : expr.mapOwn id = expr := by
  cases expr with
  | path segments span => simp only [mapOwn, List.map_id]
  | block stmts tail span => simp only [mapOwn, funext Stmt.mapOwn_id, List.map_id']
  | call callee args span | method receiver name args marked span =>
      simp only [mapOwn, funext Arg.mapLabel_id, List.map_id', id]
  | construct name inits span =>
      simp only [mapOwn, funext Init.mapName_id, List.map_id', id]
  | _ => rfl

/-! ### Trees -/

/-- The tree with other symbols. -/
def mapSymbols (rename : Symbol → Symbol) : Expr → Expr :=
  foldUp fun node inside => (node.mapOwn rename).refill inside

/-- The symbols in a tree, as often as they occur. -/
def symbols : Expr → List Symbol :=
  foldUp fun node inside => node.localSymbols ++ inside.flatten

theorem mapSymbols_eq (rename : Symbol → Symbol) (expr : Expr) :
    expr.mapSymbols rename =
      (expr.mapOwn rename).refill (expr.children.map (mapSymbols rename)) :=
  foldUp_eq _ expr

theorem symbols_eq (expr : Expr) :
    expr.symbols = expr.localSymbols ++ expr.children.flatMap symbols := by
  unfold symbols
  rw [foldUp_eq, List.flatMap_def]

/-- A tree mentions what its nodes mention, at least as often. -/
theorem symbols_sublist {node expr : Expr} (inside : node ∈ expr.postOrder) :
    node.symbols.Sublist expr.symbols := by
  induction expr using childInduction with
  | node expr inductionHypothesis =>
      rw [postOrder_eq, List.mem_append, List.mem_singleton] at inside
      rcases inside with inChildren | rfl
      · obtain ⟨child, isChild, inChild⟩ := List.mem_flatMap.mp inChildren
        rw [symbols_eq expr, List.flatMap_def]
        exact ((inductionHypothesis child isChild inChild).trans
          (List.sublist_flatten_of_mem (List.mem_map_of_mem isChild))).trans
          (List.sublist_append_right _ _)
      · exact .refl _

theorem localSymbols_subset {node expr : Expr} (inside : node ∈ expr.postOrder) :
    node.localSymbols ⊆ expr.symbols := by
  refine List.Subset.trans ?_ (symbols_sublist inside).subset
  rw [symbols_eq]
  exact List.subset_append_left _ _

theorem children_mapSymbols (rename : Symbol → Symbol) (expr : Expr) :
    (expr.mapSymbols rename).children = expr.children.map (mapSymbols rename) := by
  rw [mapSymbols_eq, children_refill]
  rw [List.length_map, children_mapOwn]

theorem mapSymbols_refill
    (rename : Symbol → Symbol)
    (expr : Expr)
    {exprs : List Expr}
    (fits : exprs.length = expr.children.length) :
    (expr.refill exprs).mapSymbols rename =
      (expr.mapSymbols rename).refill (exprs.map (mapSymbols rename)) := by
  have sameRoom := congrArg List.length (children_mapOwn rename expr)
  have room : (exprs.map (mapSymbols rename)).length = (expr.mapOwn rename).children.length := by
    rw [List.length_map, fits, sameRoom]
  have own : (expr.children.map (mapSymbols rename)).length =
      (expr.mapOwn rename).children.length := by
    rw [List.length_map, sameRoom]
  rw [mapSymbols_eq, children_refill expr fits, mapOwn_refill, mapSymbols_eq rename expr,
    refill_refill _ own room, refill_refill _ (fits.trans sameRoom.symm) room]

theorem symbols_refill
    (expr : Expr)
    {exprs : List Expr}
    (fits : exprs.length = expr.children.length) :
    (expr.refill exprs).symbols = expr.localSymbols ++ exprs.flatMap symbols := by
  rw [symbols_eq, localSymbols_refill expr fits, children_refill expr fits]

theorem mapSymbols_congr
    {rename rename' : Symbol → Symbol}
    (expr : Expr)
    (agree : ∀ symbol ∈ expr.symbols, rename symbol = rename' symbol) :
    expr.mapSymbols rename = expr.mapSymbols rename' := by
  induction expr using childInduction with
  | node expr inductionHypothesis =>
      rw [symbols_eq] at agree
      have own := expr.mapOwn_congr fun symbol member =>
        agree symbol (List.mem_append_left _ member)
      have inside : expr.children.map (mapSymbols rename) =
          expr.children.map (mapSymbols rename') :=
        List.map_congr_left fun child isChild => inductionHypothesis child isChild
          fun symbol member =>
            agree symbol (List.mem_append_right _ (List.mem_flatMap_of_mem isChild member))
      rw [mapSymbols_eq, mapSymbols_eq, own, inside]

theorem mapSymbols_id (expr : Expr) : expr.mapSymbols id = expr := by
  induction expr using childInduction with
  | node expr inductionHypothesis =>
      rw [mapSymbols_eq, mapOwn_id, List.map_congr_left inductionHypothesis, List.map_id',
        refill_children]

@[simp] theorem isMarkedAccess_mapSymbols (rename : Symbol → Symbol) (expr : Expr) :
    (expr.mapSymbols rename).isMarkedAccess = expr.isMarkedAccess := by
  rw [mapSymbols_eq, isMarkedAccess_refill]
  cases expr <;> rfl

@[simp] theorem isArray_mapSymbols (rename : Symbol → Symbol) (expr : Expr) :
    (expr.mapSymbols rename).isArray = expr.isArray := by
  rw [mapSymbols_eq, isArray_refill]
  cases expr <;> rfl

theorem postOrder_mapSymbols (rename : Symbol → Symbol) (expr : Expr) :
    (expr.mapSymbols rename).postOrder = expr.postOrder.map (mapSymbols rename) := by
  induction expr using childInduction with
  | node expr inductionHypothesis =>
      rw [postOrder_eq, children_mapSymbols, postOrder_eq expr, List.map_append, List.map_singleton,
        List.map_flatMap, List.flatMap_map, List.flatMap_def, List.flatMap_def,
        List.map_congr_left inductionHypothesis]

theorem length_markers_mapSymbols (rename : Symbol → Symbol) (expr : Expr) :
    (expr.mapSymbols rename).markers.length = expr.markers.length := by
  unfold markers
  rw [postOrder_mapSymbols, List.filter_map, List.length_map]
  simp only [Function.comp_def, isMarkedAccess_mapSymbols]

end Expr

/-- The symbols in a statement, as often as they occur. -/
def Stmt.symbols (stmt : Stmt) : List Symbol :=
  stmt.ownSymbols ++ stmt.children.flatMap Expr.symbols

/-- Up to their order, the symbols in a block are those of its statements and its
tail. -/
theorem Expr.symbols_block (stmts : List Stmt) (tail : Option Expr) (span : Span) :
    (block stmts tail span).symbols.Perm
      (stmts.flatMap Stmt.symbols ++ tail.toList.flatMap symbols) := by
  have each : (stmts.flatMap Stmt.ownSymbols ++ (stmts.flatMap Stmt.children).flatMap symbols).Perm
      (stmts.flatMap Stmt.symbols) := by
    rw [List.flatMap_assoc]
    exact List.flatMap_append_perm stmts Stmt.ownSymbols fun stmt => stmt.children.flatMap symbols
  rw [symbols_eq, children, List.flatMap_append, ← List.append_assoc]
  exact each.append_right _

/-! ### Declarations and units -/

namespace Param

/-- The symbols of a parameter. -/
def symbols (param : Param) : List Symbol :=
  param.name :: param.note.symbols

/-- The parameter with other symbols. -/
def mapSymbols (rename : Symbol → Symbol) (param : Param) : Param :=
  { param with name := rename param.name, note := param.note.mapSymbols rename }

theorem mapSymbols_congr
    {rename rename' : Symbol → Symbol}
    (param : Param)
    (agree : ∀ symbol ∈ param.symbols, rename symbol = rename' symbol) :
    param.mapSymbols rename = param.mapSymbols rename' := by
  unfold mapSymbols
  rw [agree param.name List.mem_cons_self,
    param.note.mapSymbols_congr fun symbol member => agree symbol (List.mem_cons_of_mem _ member)]

theorem mapSymbols_id (param : Param) : param.mapSymbols id = param := by
  unfold mapSymbols
  rw [param.note.mapSymbols_id]
  rfl

end Param

namespace FieldDecl

/-- The symbols of a field. -/
def symbols (field : FieldDecl) : List Symbol :=
  field.name :: field.note.symbols

/-- The field with other symbols. -/
def mapSymbols (rename : Symbol → Symbol) (field : FieldDecl) : FieldDecl :=
  { field with name := rename field.name, note := field.note.mapSymbols rename }

theorem mapSymbols_congr
    {rename rename' : Symbol → Symbol}
    (field : FieldDecl)
    (agree : ∀ symbol ∈ field.symbols, rename symbol = rename' symbol) :
    field.mapSymbols rename = field.mapSymbols rename' := by
  unfold mapSymbols
  rw [agree field.name List.mem_cons_self,
    field.note.mapSymbols_congr fun symbol member => agree symbol (List.mem_cons_of_mem _ member)]

theorem mapSymbols_id (field : FieldDecl) : field.mapSymbols id = field := by
  unfold mapSymbols
  rw [field.note.mapSymbols_id]
  rfl

end FieldDecl

namespace Function

/-- The symbols of a function outside its body. -/
def headSymbols (f : Function) : List Symbol :=
  f.name :: f.params.flatMap Param.symbols ++ (f.result.map TypeNote.symbols).getD []

/-- The symbols of a function. -/
def symbols (f : Function) : List Symbol :=
  f.headSymbols ++ f.body.symbols

/-- The function with other symbols. -/
def mapSymbols (rename : Symbol → Symbol) (f : Function) : Function where
  name := rename f.name
  isStatic := f.isStatic
  params := f.params.map (Param.mapSymbols rename)
  result := f.result.map (TypeNote.mapSymbols rename)
  body := f.body.mapSymbols rename
  visibility := f.visibility
  span := f.span

theorem mapSymbols_congr
    {rename rename' : Symbol → Symbol}
    (f : Function)
    (agree : ∀ symbol ∈ f.headSymbols ++ f.body.symbols, rename symbol = rename' symbol) :
    f.mapSymbols rename = f.mapSymbols rename' := by
  simp only [headSymbols, List.mem_append, List.mem_cons, List.mem_flatMap] at agree
  have params : f.params.map (Param.mapSymbols rename) = f.params.map (Param.mapSymbols rename') :=
    List.map_congr_left fun param isParam => param.mapSymbols_congr fun symbol member =>
      agree symbol (.inl (.inl (.inr ⟨param, isParam, member⟩)))
  have result : f.result.map (TypeNote.mapSymbols rename) =
      f.result.map (TypeNote.mapSymbols rename') :=
    Option.map_congr fun note isResult => note.mapSymbols_congr fun symbol member =>
      agree symbol (.inl (.inr (by rw [Option.mem_def.mp isResult]; exact member)))
  have body := f.body.mapSymbols_congr fun symbol member => agree symbol (.inr member)
  unfold mapSymbols
  rw [agree f.name (.inl (.inl (.inl rfl))), params, result, body]

theorem mapSymbols_id (f : Function) : f.mapSymbols id = f := by
  unfold mapSymbols
  rw [funext Param.mapSymbols_id, funext TypeNote.mapSymbols_id, f.body.mapSymbols_id,
    List.map_id', Option.map_id']
  rfl

end Function

namespace Decl

/-- The symbols of a declaration outside its expressions. -/
def headSymbols : Decl → List Symbol
  | function f => f.headSymbols
  | record name fields methods _ _ =>
      name :: fields.flatMap FieldDecl.symbols ++ methods.flatMap Function.headSymbols
  | extension name methods _ => name :: methods.flatMap Function.headSymbols
  | constant name note _ _ _ => name :: note.symbols

/-- The symbols of a declaration. -/
def symbols (decl : Decl) : List Symbol :=
  decl.headSymbols ++ decl.bodies.flatMap Expr.symbols

/-- The declaration with other symbols. -/
def mapSymbols (rename : Symbol → Symbol) : Decl → Decl
  | function f => function (f.mapSymbols rename)
  | record name fields methods visibility span =>
      record (rename name) (fields.map (FieldDecl.mapSymbols rename))
        (methods.map (Function.mapSymbols rename)) visibility span
  | extension name methods span =>
      extension (rename name) (methods.map (Function.mapSymbols rename)) span
  | constant name note value visibility span =>
      constant (rename name) (note.mapSymbols rename) (value.mapSymbols rename) visibility span

theorem mapSymbols_congr
    {rename rename' : Symbol → Symbol}
    (decl : Decl)
    (agree : ∀ symbol ∈ decl.headSymbols ++ decl.bodies.flatMap Expr.symbols,
      rename symbol = rename' symbol) :
    decl.mapSymbols rename = decl.mapSymbols rename' := by
  have methods : ∀ methods : List Function,
      (∀ symbol ∈ methods.flatMap Function.headSymbols ++
        (methods.map Function.body).flatMap Expr.symbols, rename symbol = rename' symbol) →
      methods.map (Function.mapSymbols rename) = methods.map (Function.mapSymbols rename') := by
    intro methods agree
    simp only [List.mem_append, List.mem_flatMap, List.mem_map] at agree
    refine List.map_congr_left fun f isMethod => f.mapSymbols_congr fun symbol member => ?_
    rcases List.mem_append.mp member with inHead | inBody
    · exact agree symbol (.inl ⟨f, isMethod, inHead⟩)
    · exact agree symbol (.inr ⟨f.body, ⟨f, isMethod, rfl⟩, inBody⟩)
  cases decl with
  | function f =>
      have same := f.mapSymbols_congr fun symbol member => agree symbol (by
        simpa [headSymbols, bodies, functions] using member)
      simp only [mapSymbols, same]
  | record name fields members visibility span =>
      simp only [headSymbols, bodies, functions, List.mem_append, List.mem_cons] at agree
      have sameMethods := methods members fun symbol member => agree symbol
        ((List.mem_append.mp member).imp .inr id)
      have sameFields : fields.map (FieldDecl.mapSymbols rename) =
          fields.map (FieldDecl.mapSymbols rename') :=
        List.map_congr_left fun field isField => field.mapSymbols_congr fun symbol member =>
          agree symbol (.inl (.inl (.inr (List.mem_flatMap_of_mem isField member))))
      simp only [mapSymbols, agree name (.inl (.inl (.inl rfl))), sameMethods, sameFields]
  | extension name members span =>
      simp only [headSymbols, bodies, functions, List.mem_append, List.mem_cons] at agree
      have sameMethods := methods members fun symbol member => agree symbol
        ((List.mem_append.mp member).imp .inr id)
      simp only [mapSymbols, agree name (.inl (.inl rfl)), sameMethods]
  | constant name note value visibility span =>
      simp only [headSymbols, bodies, List.flatMap_cons, List.flatMap_nil, List.append_nil,
        List.mem_append, List.mem_cons] at agree
      have sameNote := note.mapSymbols_congr fun symbol member => agree symbol (.inl (.inr member))
      have sameValue := value.mapSymbols_congr fun symbol member => agree symbol (.inr member)
      simp only [mapSymbols, agree name (.inl (.inl rfl)), sameNote, sameValue]

theorem mapSymbols_id (decl : Decl) : decl.mapSymbols id = decl := by
  cases decl with
  | function f => simp only [mapSymbols, f.mapSymbols_id]
  | record name fields methods visibility span =>
      simp only [mapSymbols, funext FieldDecl.mapSymbols_id, funext Function.mapSymbols_id,
        List.map_id', id]
  | extension name methods span =>
      simp only [mapSymbols, funext Function.mapSymbols_id, List.map_id', id]
  | constant name note value visibility span =>
      simp only [mapSymbols, note.mapSymbols_id, value.mapSymbols_id, id]

theorem bodies_mapSymbols (rename : Symbol → Symbol) (decl : Decl) :
    (decl.mapSymbols rename).bodies = decl.bodies.map (Expr.mapSymbols rename) := by
  cases decl with
  | function | constant => rfl
  | record name fields methods visibility span | extension name methods span =>
      simp only [mapSymbols, bodies, functions, List.map_map]
      rfl

theorem headSymbols_withBodies
    (decl : Decl)
    (exprs : List Expr)
    (fits : exprs.length = decl.bodies.length) :
    (decl.withBodies exprs).headSymbols = decl.headSymbols := by
  cases decl with
  | function | constant => rfl
  | record name fields methods visibility span | extension name methods span =>
      have fitsMethods : exprs.length = methods.length :=
        fits.trans (List.length_map Function.body)
      have kept : (methods.zipWith Function.withBody exprs).map Function.headSymbols =
          methods.map Function.headSymbols :=
        Expr.map_zipWith_withValue (fun _ _ => rfl) fitsMethods
      simp only [withBodies, headSymbols, List.flatMap_def, kept]

theorem mapSymbols_withBodies (rename : Symbol → Symbol) (decl : Decl) (exprs : List Expr) :
    (decl.withBodies exprs).mapSymbols rename =
      (decl.mapSymbols rename).withBodies (exprs.map (Expr.mapSymbols rename)) := by
  cases decl with
  | function | constant => cases exprs <;> rfl
  | record name fields methods visibility span | extension name methods span =>
      simp only [withBodies, mapSymbols, List.map_zipWith, List.zipWith_map]
      rfl

end Decl

namespace SourceUnit

/-- The symbols of a unit outside its expressions. -/
def headSymbols (unit : SourceUnit) : List Symbol :=
  unit.decls.flatMap Decl.headSymbols

/-- The symbols in a unit, as often as they occur. -/
def symbols (unit : SourceUnit) : List Symbol :=
  unit.headSymbols ++ unit.bodies.flatMap Expr.symbols

/-- The unit with other symbols. -/
def mapSymbols (rename : Symbol → Symbol) (unit : SourceUnit) : SourceUnit :=
  { unit with decls := unit.decls.map (Decl.mapSymbols rename) }

theorem mapSymbols_congr
    {rename rename' : Symbol → Symbol}
    (unit : SourceUnit)
    (agree : ∀ symbol ∈ unit.symbols, rename symbol = rename' symbol) :
    unit.mapSymbols rename = unit.mapSymbols rename' := by
  have each : unit.decls.map (Decl.mapSymbols rename) = unit.decls.map (Decl.mapSymbols rename') := by
    refine List.map_congr_left fun decl isDecl => decl.mapSymbols_congr fun symbol member => ?_
    rcases List.mem_append.mp member with inHead | inBody
    · exact agree symbol (List.mem_append_left _ (List.mem_flatMap_of_mem isDecl inHead))
    · obtain ⟨body, isBody, inBody⟩ := List.mem_flatMap.mp inBody
      exact agree symbol (List.mem_append_right _
        (List.mem_flatMap_of_mem (List.mem_flatMap_of_mem isDecl isBody) inBody))
  unfold mapSymbols
  rw [each]

theorem mapSymbols_id (unit : SourceUnit) : unit.mapSymbols id = unit := by
  unfold mapSymbols
  rw [funext Decl.mapSymbols_id, List.map_id']

theorem bodies_mapSymbols (rename : Symbol → Symbol) (unit : SourceUnit) :
    (unit.mapSymbols rename).bodies = unit.bodies.map (Expr.mapSymbols rename) := by
  simp only [mapSymbols, bodies, List.flatMap_map, Decl.bodies_mapSymbols, List.map_flatMap]

theorem mapSymbols_withBodies
    (rename : Symbol → Symbol)
    (unit : SourceUnit)
    (exprs : List Expr) :
    (unit.withBodies exprs).mapSymbols rename =
      (unit.mapSymbols rename).withBodies (exprs.map (Expr.mapSymbols rename)) :=
  congrArg (SourceUnit.mk unit.package) (map_refillEach_image
    (fun decl => (congrArg List.length (decl.bodies_mapSymbols rename)).trans
      (List.length_map _))
    (Decl.mapSymbols_withBodies rename) unit.decls exprs)

theorem headSymbols_withBodies
    (unit : SourceUnit)
    {exprs : List Expr}
    (fits : exprs.length = unit.bodies.length) :
    (unit.withBodies exprs).headSymbols = unit.headSymbols := by
  unfold headSymbols withBodies
  rw [List.flatMap_def, List.flatMap_def,
    map_refillEach Decl.headSymbols_withBodies unit.decls fits]

theorem symbols_withBodies
    (unit : SourceUnit)
    {exprs : List Expr}
    (fits : exprs.length = unit.bodies.length) :
    (unit.withBodies exprs).symbols = unit.headSymbols ++ exprs.flatMap Expr.symbols := by
  unfold symbols
  rw [headSymbols_withBodies unit fits, bodies_withBodies unit fits]

end SourceUnit

/-! ### Trees that resolve -/

namespace Expr

/-- A tree resolves if the table knows all symbols in it. -/
theorem resolves_iff {table : SymbolTable} (expr : Expr) :
    expr.resolves table ↔ ∀ symbol ∈ expr.symbols, table.knows symbol := by
  induction expr using childInduction with
  | node expr inductionHypothesis =>
      have own : (expr.ownSymbols.all table.knows &&
            expr.statements.all fun stmt => stmt.ownSymbols.all table.knows) ↔
          ∀ symbol ∈ expr.localSymbols, table.knows symbol := by
        simp only [localSymbols, Bool.and_eq_true, List.all_eq_true, List.mem_append,
          List.mem_flatMap]
        grind
      have inside : expr.children.all (resolves table) ↔
          ∀ symbol ∈ expr.children.flatMap symbols, table.knows symbol := by
        simp only [List.all_eq_true, List.mem_flatMap]
        grind
      unfold resolves at inside ⊢
      rw [everywhere_eq, Bool.and_eq_true, own, inside, symbols_eq, ← List.forall_mem_append]

end Expr

theorem Function.resolves_iff {table : SymbolTable} (f : Function) :
    f.resolves table ↔ ∀ symbol ∈ f.headSymbols ++ f.body.symbols, table.knows symbol := by
  simp only [Function.resolves, headSymbols, Param.symbols, Bool.and_eq_true, List.all_eq_true,
    Expr.resolves_iff, List.mem_append, List.mem_cons, List.mem_flatMap]
  grind

theorem Decl.resolves_iff {table : SymbolTable} (decl : Decl) :
    decl.resolves table ↔
      ∀ symbol ∈ decl.headSymbols ++ decl.bodies.flatMap Expr.symbols, table.knows symbol := by
  cases decl with
  | function f =>
      have named : f.name ∈ f.headSymbols := List.mem_cons_self
      simp only [Decl.resolves, Decl.name, functions, bodies, headSymbols, Bool.and_eq_true,
        List.all_cons, List.all_nil, and_true, Function.resolves_iff, List.map_cons, List.map_nil,
        List.flatMap_cons, List.flatMap_nil, List.append_nil, and_iff_right_iff_imp]
      exact fun known => known f.name (List.mem_append_left _ named)
  | record | extension | constant =>
      simp only [Decl.resolves, Decl.name, functions, bodies, headSymbols, FieldDecl.symbols,
        Bool.and_eq_true, List.all_eq_true, Function.resolves_iff, Expr.resolves_iff,
        List.mem_append, List.mem_cons, List.mem_flatMap, List.mem_map]
      grind

/-- A unit resolves if the table knows all symbols in it. -/
theorem SourceUnit.resolves_iff {table : SymbolTable} (unit : SourceUnit) :
    unit.resolves table ↔ ∀ symbol ∈ unit.symbols, table.knows symbol := by
  simp only [SourceUnit.resolves, symbols, headSymbols, bodies, List.all_eq_true,
    Decl.resolves_iff, List.mem_append, List.mem_flatMap]
  constructor
  · rintro known symbol (⟨decl, isDecl, inHead⟩ | ⟨body, ⟨decl, isDecl, isBody⟩, inBody⟩)
    · exact known decl isDecl symbol (.inl inHead)
    · exact known decl isDecl symbol (.inr ⟨body, isBody, inBody⟩)
  · rintro known decl isDecl symbol (inHead | ⟨body, isBody, inBody⟩)
    · exact known symbol (.inl ⟨decl, isDecl, inHead⟩)
    · exact known symbol (.inr ⟨body, ⟨decl, isDecl, isBody⟩, inBody⟩)

theorem SourceUnit.resolves_of_grows
    {added : String → Prop}
    {table later : SymbolTable}
    (grows : SymbolTable.ExtendsBy added table later)
    {unit : SourceUnit}
    (resolves : unit.resolves table) :
    unit.resolves later :=
  (resolves_iff unit).mpr fun symbol member =>
    grows.knows ((resolves_iff unit).mp resolves symbol member)

/-! ### Trees resolved to text -/

/-- The symbol that stands for a text itself, whatever table it is in. -/
def Symbol.ofText (text : String) : Symbol :=
  ⟨Encodable.encode (text.toList.map Char.toNat)⟩

theorem Symbol.ofText_injective : Function.Injective Symbol.ofText := by
  intro text other same
  have codes := Encodable.encode_injective (Symbol.mk.inj same)
  exact String.toList_injective (List.map_injective_iff.mpr (fun _ _ => Char.toNat_inj.mp) codes)

/-- The unit with every symbol resolved to its text. -/
def SourceUnit.spelled (unit : SourceUnit) (display : Symbol → String) : SourceUnit :=
  unit.mapSymbols fun symbol => .ofText (display symbol)

end NilSafety
