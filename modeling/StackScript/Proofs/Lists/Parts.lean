import StackScript.Proofs.Census.Nodes

/-!
# The code of a part of a script

The code of an expression stands in the code of the script as one piece, wherever the expression
stands: in the script itself or in the block of a function (`HasLabelled.exists_part`).  Only the
name of a field has no code of its own.
-/

namespace StackScript.Code.Structured

variable {φ β : Type}

/-- Structured code from each of its places on, up to the end of the function or the branch that
the place is in. -/
def suffixes : Structured φ β → List (Structured φ β)
  | done => [done]
  | instruction content rest => instruction content rest :: rest.suffixes
  | function mark parameters body rest =>
      function mark parameters body rest :: (body.suffixes ++ rest.suffixes)
  | branch mark onTrue onFalse rest =>
      branch mark onTrue onFalse rest :: (onTrue.suffixes ++ onFalse.suffixes ++ rest.suffixes)

@[simp] theorem suffixes_done : (done : Structured φ β).suffixes = [done] := rfl

@[simp] theorem suffixes_instruction (content : Instruction) (rest : Structured φ β) :
    (instruction content rest).suffixes = instruction content rest :: rest.suffixes := rfl

@[simp] theorem suffixes_function (mark : φ) (parameters : List String)
    (body rest : Structured φ β) :
    (function mark parameters body rest).suffixes =
      function mark parameters body rest :: (body.suffixes ++ rest.suffixes) := rfl

@[simp] theorem suffixes_branch (mark : β) (onTrue onFalse rest : Structured φ β) :
    (branch mark onTrue onFalse rest).suffixes =
      branch mark onTrue onFalse rest ::
        (onTrue.suffixes ++ onFalse.suffixes ++ rest.suffixes) := rfl

/-- A part stands in structured code as one piece. -/
def Within (part code : Structured φ β) : Prop :=
  ∃ rest, part ++ rest ∈ code.suffixes

theorem self_mem_suffixes (code : Structured φ β) : code ∈ code.suffixes := by
  cases code <;> simp

theorem suffixes_mapMarks {φ' β' : Type} (onFunction : φ → φ') (onBranch : β → β')
    (code : Structured φ β) :
    (code.mapMarks onFunction onBranch).suffixes =
      code.suffixes.map (mapMarks onFunction onBranch) := by
  induction code with
  | done => rfl
  | instruction content rest ih => simp [mapMarks, ih]
  | function mark parameters body rest bodyIH restIH =>
      simp [mapMarks, bodyIH, restIH]
  | branch mark onTrue onFalse rest trueIH falseIH restIH =>
      simp [mapMarks, trueIH, falseIH, restIH]

namespace Within

variable {part first second third : Structured φ β}

theorem refl (part : Structured φ β) : Within part part :=
  ⟨.done, by simpa using self_mem_suffixes part⟩

theorem append_left (first : Structured φ β) (within : Within part second) :
    Within part (first ++ second) := by
  obtain ⟨rest, member⟩ := within
  refine ⟨rest, ?_⟩
  induction first with
  | done => exact member
  | instruction content others ih => simp [ih]
  | function mark parameters body others _ ih => simp [ih]
  | branch mark onTrue onFalse others _ _ ih => simp [ih]

theorem append_right (within : Within part first) (second : Structured φ β) :
    Within part (first ++ second) := by
  obtain ⟨rest, member⟩ := within
  induction first with
  | done =>
      rw [suffixes_done, List.mem_singleton, append_eq_done_iff] at member
      exact ⟨second, by simpa [member.1] using self_mem_suffixes second⟩
  | instruction content others ih =>
      rcases List.mem_cons.mp member with whole | inRest
      · refine ⟨rest ++ second, List.mem_cons.mpr (.inl ?_)⟩
        rw [← append_assoc, whole]
        rfl
      · obtain ⟨later, inLater⟩ := ih inRest
        exact ⟨later, List.mem_cons_of_mem _ inLater⟩
  | function mark parameters body others _ ih =>
      rcases List.mem_cons.mp member with whole | inside
      · refine ⟨rest ++ second, List.mem_cons.mpr (.inl ?_)⟩
        rw [← append_assoc, whole]
        rfl
      · rcases List.mem_append.mp inside with inBody | inRest
        · exact ⟨rest, List.mem_cons_of_mem _ (List.mem_append_left _ inBody)⟩
        · obtain ⟨later, inLater⟩ := ih inRest
          exact ⟨later, List.mem_cons_of_mem _ (List.mem_append_right _ inLater)⟩
  | branch mark onTrue onFalse others _ _ ih =>
      rcases List.mem_cons.mp member with whole | inside
      · refine ⟨rest ++ second, List.mem_cons.mpr (.inl ?_)⟩
        rw [← append_assoc, whole]
        rfl
      · rcases List.mem_append.mp inside with inBranches | inRest
        · exact ⟨rest, List.mem_cons_of_mem _ (List.mem_append_left _ inBranches)⟩
        · obtain ⟨later, inLater⟩ := ih inRest
          exact ⟨later, List.mem_cons_of_mem _ (List.mem_append_right _ inLater)⟩

theorem inBody {mark : φ} {parameters : List String} (within : Within part first) :
    Within part (function mark parameters first second) := by
  obtain ⟨rest, member⟩ := within
  exact ⟨rest, List.mem_cons_of_mem _ (List.mem_append_left _ member)⟩

theorem onTrue {mark : β} (within : Within part first) :
    Within part (branch mark first second third) := by
  obtain ⟨rest, member⟩ := within
  exact ⟨rest, by simp [member]⟩

theorem onFalse {mark : β} (within : Within part second) :
    Within part (branch mark first second third) := by
  obtain ⟨rest, member⟩ := within
  exact ⟨rest, by simp [member]⟩

end Within

/-- Code whose outline has two parts has two parts. -/
theorem exists_append_of_outline {labelled : Labelled} {first second : Outline}
    (outlined : labelled.outline = first ++ second) :
    ∃ before after : Labelled, labelled = before ++ after ∧ before.outline = first ∧
      after.outline = second := by
  induction first generalizing labelled with
  | done => exact ⟨.done, labelled, rfl, rfl, outlined⟩
  | instruction content rest ih =>
      cases labelled with
      | instruction other others =>
          injection outlined with sameContent sameRest
          obtain ⟨before, after, rfl, rfl, rfl⟩ := ih sameRest
          subst sameContent
          exact ⟨.instruction other before, after, rfl, rfl, rfl⟩
      | done | function _ _ _ _ | branch _ _ _ _ => cases outlined
  | function name? parameters body rest _ ih =>
      cases labelled with
      | function site given inside others =>
          injection outlined with sameName sameParameters sameBody sameRest
          obtain ⟨before, after, rfl, rfl, rfl⟩ := ih sameRest
          subst sameName sameParameters sameBody
          exact ⟨.function site given inside before, after, rfl, rfl, rfl⟩
      | done | instruction _ _ | branch _ _ _ _ => cases outlined
  | branch mark onTrue onFalse rest _ _ ih =>
      cases labelled with
      | branch number whenTrue whenFalse others =>
          injection outlined with _ sameTrue sameFalse sameRest
          obtain ⟨before, after, rfl, rfl, rfl⟩ := ih sameRest
          subst sameTrue sameFalse
          exact ⟨.branch number whenTrue whenFalse before, after, rfl, rfl, rfl⟩
      | done | instruction _ _ | function _ _ _ _ => cases outlined

/-- What stands in the outline of code stands in the code. -/
theorem Within.exists_labelled {labelled : Labelled} {part : Outline}
    (within : part.Within labelled.outline) :
    ∃ inner : Labelled, inner.outline = part ∧ inner.Within labelled := by
  obtain ⟨rest, member⟩ := within
  rw [outline, suffixes_mapMarks] at member
  obtain ⟨suffix, isSuffix, outlined⟩ := List.mem_map.mp member
  obtain ⟨inner, after, rfl, isPart, _⟩ := exists_append_of_outline outlined
  exact ⟨inner, isPart, after, isSuffix⟩

theorem infix_branching (number : Int) (onTrue onFalse : List Entry) :
    onTrue <:+: branching number [] onTrue onFalse ∧
      onFalse <:+: branching number [] onTrue onFalse := by
  constructor
  · exact ⟨[Entry.of .jumpIfFalse (.text (elseLabel number)),
        Entry.of .jump (.text (thenLabel number)), .label (thenLabel number)],
      [Entry.of .jump (.text (endLabel number)), .label (elseLabel number)] ++ onFalse ++
        [.label (endLabel number)], by simp [branching]⟩
  · exact ⟨_, [.label (endLabel number)], by rw [branching]⟩

/-- A suffix of labelled code is laid out as one piece, in the code or in a block. -/
theorem code_infix_of_mem_suffixes {labelled suffix : Labelled}
    (member : suffix ∈ labelled.suffixes) :
    suffix.code <:+: labelled.code ∨ suffix.code <:+: labelled.blockEntries := by
  induction labelled with
  | done =>
      rw [List.mem_singleton.mp member]
      exact .inl (List.infix_refl _)
  | instruction content rest ih =>
      rcases List.mem_cons.mp member with rfl | inRest
      · exact .inl (List.infix_refl _)
      · exact (ih inRest).imp_left List.infix_cons
  | function site parameters body rest bodyIH restIH =>
      rw [blockEntries_function]
      rcases List.mem_cons.mp member with rfl | inside
      · exact .inl (List.infix_refl _)
      · rcases List.mem_append.mp inside with inBody | inRest
        · right
          rcases bodyIH inBody with inCode | inBlocks
          · have inBlock : body.code <:+: Block.entries ⟨site, parameters, body.code⟩ := by
              rw [Block.entries_eq]
              exact ⟨.label site.label :: bindings parameters,
                [Entry.of .returnValue .nothing], by simp⟩
            exact (inCode.trans inBlock).trans (List.infix_append' ..)
          · exact inBlocks.trans (List.prefix_append _ _).isInfix
        · refine (restIH inRest).imp List.infix_cons fun inBlocks => inBlocks.trans ?_
          rw [← List.append_assoc]
          exact (List.suffix_append _ _).isInfix
  | branch number onTrue onFalse rest trueIH falseIH restIH =>
      obtain ⟨trueInfix, falseInfix⟩ := infix_branching number onTrue.code onFalse.code
      rw [blockEntries_branch, code]
      rcases List.mem_cons.mp member with rfl | inside
      · exact .inl (List.infix_refl _)
      · rcases List.mem_append.mp inside with inBranches | inRest
        · rcases List.mem_append.mp inBranches with inTrue | inFalse
          · exact (trueIH inTrue).imp
              (fun inCode => (inCode.trans trueInfix).trans (List.prefix_append _ _).isInfix)
              fun inBlocks => inBlocks.trans (List.prefix_append _ _).isInfix
          · exact (falseIH inFalse).imp
              (fun inCode => (inCode.trans falseInfix).trans (List.prefix_append _ _).isInfix)
              fun inBlocks => inBlocks.trans (List.infix_append' ..)
        · refine (restIH inRest).imp
            (fun inCode => inCode.trans (List.suffix_append _ _).isInfix)
            fun inBlocks => inBlocks.trans ?_
          rw [← List.append_assoc]
          exact (List.suffix_append _ _).isInfix

end StackScript.Code.Structured

namespace StackScript.Surface

open StackScript.Code (Outline Opcode Argument)
open StackScript.Code.Structured (Within)

/-! ## Trees -/

/-- The outline of a node stands in an outline as one piece. -/
def HasPart (outline : Outline) (node : Expr) : Prop :=
  ∃ counter after part, outlineExpr counter node = some (part, after) ∧ part.Within outline

/-- The outlines of all nodes stand in an outline, unless a node is a name. -/
def HasParts (outline : Outline) (nodes : List Expr) : Prop :=
  ∀ node ∈ nodes, node.name? = none → HasPart outline node

namespace HasParts

variable {first second third : Outline} {firstNodes secondNodes thirdNodes : List Expr}

theorem nil (outline : Outline) : HasParts outline [] := by
  simp [HasParts]

/-- What has the parts of an outline wherever they stand in it has the same parts. -/
theorem mono (parts : HasParts first firstNodes)
    (within : ∀ part : Outline, part.Within first → part.Within second) :
    HasParts second firstNodes := by
  intro node member unnamed
  obtain ⟨counter, after, part, found, inFirst⟩ := parts node member unnamed
  exact ⟨counter, after, part, found, within part inFirst⟩

theorem andThen (parts : HasParts first firstNodes) (second : Outline) :
    HasParts (first ++ second) firstNodes :=
  parts.mono fun _ within => within.append_right second

theorem after (parts : HasParts second secondNodes) (first : Outline) :
    HasParts (first ++ second) secondNodes :=
  parts.mono fun _ within => within.append_left first

theorem both (parts : HasParts first firstNodes) (more : HasParts first secondNodes) :
    HasParts first (firstNodes ++ secondNodes) :=
  List.forall_mem_append.mpr ⟨parts, more⟩

theorem append (parts : HasParts first firstNodes) (more : HasParts second secondNodes) :
    HasParts (first ++ second) (firstNodes ++ secondNodes) :=
  (parts.andThen second).both (more.after first)

/-- An outline is a part of itself. -/
theorem under {node : Expr} {counter after : Int} (parts : HasParts first firstNodes)
    (found : outlineExpr counter node = some (first, after)) :
    HasParts first (node :: firstNodes) :=
  List.forall_mem_cons.mpr ⟨fun _ => ⟨counter, after, first, found, .refl first⟩, parts⟩

theorem branch (parts : HasParts first firstNodes) (trueParts : HasParts second secondNodes)
    (falseParts : HasParts third thirdNodes) :
    HasParts (first ++ .branch () second third .done)
      (firstNodes ++ (secondNodes ++ thirdNodes)) :=
  parts.append ((trueParts.mono fun _ => Within.onTrue).both
    (falseParts.mono fun _ => Within.onFalse))

theorem pushFunction {name? : Option String} {parameters : List String} {counter : Int}
    (parts : HasParts first firstNodes) :
    HasParts (pushFunction name? parameters first counter) firstNodes :=
  parts.mono fun _ => Within.inBody

end HasParts

theorem gathers_parts : Gathers HasParts :=
  ⟨HasParts.nil .done, HasParts.append⟩

theorem parts_fields {fields : List (String × Expr)} {counter after : Int} {outline : Outline}
    (parts : ∀ field ∈ fields, RelatesExpr HasParts field.2)
    (found : outlineFields counter fields = some (outline, after)) :
    HasParts outline (fieldsNodes fields) := by
  induction fields generalizing counter outline with
  | nil => exact .nil outline
  | cons field rest ih =>
      obtain ⟨partsFirst, partsRest⟩ := List.forall_mem_cons.mp parts
      obtain ⟨_, _, _, firstFound, restFound, rfl⟩ := outlineFields_cons found
      exact (partsFirst firstFound).append ((ih partsRest restFound).after _)

theorem partsExpr_binary (position : Position) (level : Level) (operator : String)
    (left right : Expr) (partsLeft : RelatesExpr HasParts left)
    (partsRight : RelatesExpr HasParts right) :
    RelatesExpr HasParts (.binary position level operator left right) := by
  intro counter after outline found
  refine HasParts.under ?_ found
  obtain ⟨_, _, leftFound, ⟨_, _, rightFound, rfl⟩ | ⟨_, _, rightFound, rfl⟩ |
    ⟨_, _, named, _, rfl⟩ | ⟨_, _, _, _, _, _, rightFound, rfl⟩⟩ := outlineExpr_binary found
  · have parts := (partsLeft leftFound).branch (partsRight rightFound) (.nil (pushSymbol "false"))
    rwa [List.append_nil] at parts
  · exact (partsLeft leftFound).branch (.nil (pushSymbol "true")) (partsRight rightFound)
  · -- The name of a field has no code.
    have noParts : ∀ outline : Outline, HasParts outline right.nodes := by
      intro outline node member unnamed
      cases right with
      | symbol _ _ | misplaced _ _ =>
          rw [List.mem_singleton.mp member] at unnamed
          rw [unnamed] at named
          cases named
      | _ => cases named
    exact ((((partsLeft leftFound).andThen _).andThen _).andThen _).both (noParts _)
  · exact ((partsLeft leftFound).append (partsRight rightFound)).andThen _

/-- The outlines of the nodes of a tree stand in its outline. -/
theorem treeStep_parts : TreeStep (RelatesExpr HasParts) (RelatesStmt HasParts) where
  integer value counter after outline found := (HasParts.nil outline).under found
  text content counter after outline found := (HasParts.nil outline).under found
  symbol position name counter after outline found := (HasParts.nil outline).under found
  negation position operand parts counter after outline found := by
    refine HasParts.under ?_ found
    obtain ⟨_, operandFound, rfl⟩ := outlineExpr_negation found
    exact (parts operandFound).andThen _
  binary := partsExpr_binary
  list items parts counter after outline found := by
    refine HasParts.under ?_ found
    obtain ⟨_, itemsFound, rfl⟩ := outlineExpr_list found
    exact (gathers_parts.exprs parts itemsFound).andThen _
  record fields parts counter after outline found := by
    refine HasParts.under ?_ found
    obtain ⟨_, fieldsFound, rfl⟩ := outlineExpr_record found
    exact (parts_fields parts fieldsFound).andThen _
  item position subject index _ _ counter after outline found := by cases found
  call position function arguments parts partsArguments counter after outline found := by
    refine HasParts.under ?_ found
    obtain ⟨first, _, second, argumentsFound, functionFound, rfl⟩ := outlineExpr_call found
    have ofFunction := (parts functionFound).after first
    have ofArguments := (gathers_parts.exprs partsArguments argumentsFound).andThen second
    exact (ofFunction.both ofArguments).andThen _
  lambda parameters body parts counter after outline found := by
    refine HasParts.under ?_ found
    obtain ⟨_, _, bodyFound, rfl, _⟩ := outlineExpr_lambda found
    exact (gathers_parts.body parts bodyFound).pushFunction
  conditional condition onTrue onFalse parts partsTrue partsFalse counter after outline found := by
    refine HasParts.under ?_ found
    obtain ⟨_, _, _, _, _, conditionFound, trueFound, falseFound, rfl⟩ :=
      outlineExpr_conditional found
    exact (parts conditionFound).branch (gathers_parts.body partsTrue trueFound)
      (gathers_parts.body partsFalse falseFound)
  misplacedExpr form name? counter after outline found := by cases found
  assign target value parts counter after outline found := by
    obtain ⟨_, valueFound, rfl⟩ := outlineStmt_assign found
    exact (parts valueFound).andThen _
  evaluate expression parts counter after outline found := by
    obtain ⟨_, valueFound, rfl⟩ := outlineStmt_evaluate found
    exact (parts valueFound).andThen _
  define name parameters body parts counter after outline found := by
    obtain ⟨_, _, bodyFound, rfl, _⟩ := outlineStmt_define found
    exact (gathers_parts.body parts bodyFound).pushFunction.andThen _
  misplacedStmt form counter after outline found := by cases found

end StackScript.Surface

namespace StackScript.Script

open StackScript.Code (Labelled assemble)

/-- Every node of a script that is not a name has labelled code, which is laid out as one piece
of the code of the script. -/
theorem HasLabelled.exists_part {script : String} {program : Surface.Program}
    {labelled : Labelled} (has : HasLabelled script program labelled) {node : Surface.Expr}
    (member : node ∈ program.nodes) (unnamed : node.name? = none) :
    ∃ (counter after : Int) (part : Labelled),
      Surface.outlineExpr counter node = some (part.outline, after) ∧
      part.code <:+: assemble labelled.fragment := by
  have parts := Surface.gathers_parts.program Surface.treeStep_parts has.outlined
  obtain ⟨counter, after, outline, found, within⟩ := parts node member unnamed
  obtain ⟨part, rfl, rest, isSuffix⟩ := within.exists_labelled
  refine ⟨counter, after, part, found, ?_⟩
  have inSuffix : part.code <:+: (part ++ rest).code := by
    rw [Code.Structured.code_append]
    exact (List.prefix_append _ _).isInfix
  rw [Code.assemble_fragment]
  rcases Code.Structured.code_infix_of_mem_suffixes isSuffix with inCode | inBlocks
  · exact (inSuffix.trans inCode).trans
      ⟨labelled.blockEntries ++ [.label Code.mainLabel], [Code.Entry.of .halt .nothing], by simp⟩
  · exact (inSuffix.trans inBlocks).trans (List.prefix_append _ _).isInfix

end StackScript.Script
