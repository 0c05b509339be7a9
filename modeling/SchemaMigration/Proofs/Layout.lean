import SchemaMigration.Proofs.Parts
import SchemaMigration.Script.Basic

/-!
This module contains the layout of scripts: which lines a plan has, how deep each of them stands, and
how the lines of a script are put together. The lines of a plan are the same in all dialects, which
only word them.
-/

namespace SchemaMigration

inductive Line where
  | blank
  | create (connection table : String)
  | alter (connection table : String)
  | statement (statement : Statement)
  | close
  | call (call : ConnectionCall)
  | comment (text : String)

def Line.write (d : Dialect) (unit : String) (depth : Nat) : Line → String
  | .blank => ""
  | .create connection table => Writer.indentation unit depth ++ d.openCreate connection table
  | .alter connection table => Writer.indentation unit depth ++ d.openAlter connection table
  | .statement s => Writer.indentation unit (depth + 1) ++ d.statement s
  | .close => Writer.indentation unit depth ++ d.closeTable
  | .call c => Writer.indentation unit depth ++ d.call c
  | .comment text => Writer.indentation unit depth ++ d.comment text

def Block.body (b : Block) : List Line := b.statements.map .statement ++ [.close]

def Group.lines : Group → List Line
  | .createTable b => .create b.connection b.table :: b.body
  | .alterTable b => .alter b.connection b.table :: b.body
  | .calls list => list.map .call
  | .comment text => [.comment text]

def separator (separated : Bool) : List Line := if separated then [.blank] else []

def Pass.lines (p : Pass) : List Line :=
  (separator p.kind.spacesGroups).intercalate (p.groups.map Group.lines)

def Plan.lines (p : Plan) : List Line := (separator true).intercalate (p.passes.map Pass.lines)

namespace Writer

def append (w : Writer) (texts : List String) : Writer :=
  { w with lines := w.lines ++ texts.toArray }

theorem indentation_zero (unit : String) : indentation unit 0 = "" := rfl

@[simp]
theorem append_nil (w : Writer) : w.append [] = w := by
  simp [append]

@[simp]
theorem append_append (w : Writer) (xs ys : List String) :
    (w.append xs).append ys = w.append (xs ++ ys) := by
  simp [append, Array.append_assoc]

@[simp]
theorem unit_append (w : Writer) (xs : List String) : (w.append xs).unit = w.unit := rfl

@[simp]
theorem depth_append (w : Writer) (xs : List String) : (w.append xs).depth = w.depth := rfl

theorem line_eq_append (w : Writer) (text : String) :
    w.line text = w.append [indentation w.unit w.depth ++ text] := by
  simp [line, append]

theorem blank_eq_append (w : Writer) : w.blank = w.append [""] := by
  simp [blank, append]

theorem writeLines_eq_append (w : Writer) (texts : List String) :
    w.writeLines texts = w.append (texts.map (indentation w.unit w.depth ++ ·)) := by
  unfold writeLines
  induction texts generalizing w with
  | nil => simp
  | cons text texts ih =>
    rw [List.foldl_cons, ih, line_eq_append]
    simp

theorem outdent_append_indent (w : Writer) (texts : List String) :
    (w.indent.append texts).outdent = w.append texts := rfl

def add (w : Writer) (d : Dialect) (lines : List Line) : Writer :=
  w.append (lines.map (Line.write d w.unit w.depth))

theorem add_append (w : Writer) (d : Dialect) (xs ys : List Line) :
    (w.add d xs).add d ys = w.add d (xs ++ ys) := by
  simp [add]

end Writer

namespace Dialect

variable (d : Dialect)

theorem writeBody_eq_add (w : Writer) (b : Block) :
    d.writeBody w b.statements = w.add d b.body := by
  unfold writeBody Writer.add Block.body
  rw [Writer.writeLines_eq_append, Writer.outdent_append_indent]
  rw [Writer.line_eq_append, Writer.append_append]
  rw [List.map_append, List.map_map, List.map_map]
  rfl

theorem writeGroup_eq_add (w : Writer) (g : Group) : d.writeGroup w g = w.add d g.lines := by
  cases g with
  | createTable b =>
    simp only [writeGroup, Group.lines]
    rw [writeBody_eq_add, Writer.line_eq_append]
    exact Writer.append_append _ _ _
  | alterTable b =>
    simp only [writeGroup, Group.lines]
    rw [writeBody_eq_add, Writer.line_eq_append]
    exact Writer.append_append _ _ _
  | calls list =>
    simp only [writeGroup, Group.lines, Writer.add]
    rw [Writer.writeLines_eq_append, List.map_map, List.map_map]
    rfl
  | comment text => exact Writer.line_eq_append w _

theorem separate_eq_add (separated : Bool) (w : Writer) :
    (if separated then w.blank else w) = w.add d (separator separated) := by
  cases separated with
  | false => exact (Writer.append_nil w).symm
  | true => exact Writer.blank_eq_append w

theorem writeAll_eq_add {α : Type} {write : Writer → α → Writer} {lines : α → List Line}
    (hwrite : ∀ w a, write w a = w.add d (lines a)) (separated : Bool) (w : Writer) (as : List α) :
    writeAll separated write w as = w.add d ((separator separated).intercalate (as.map lines)) := by
  have hrest : ∀ (as : List α) (w : Writer),
      as.foldl (fun w a => write (if separated then w.blank else w) a) w =
        w.add d ((as.map lines).flatMap (separator separated ++ ·)) := by
    intro as
    induction as with
    | nil =>
      intro w
      exact (Writer.append_nil w).symm
    | cons a as ih =>
      intro w
      rw [List.foldl_cons, ih, hwrite, separate_eq_add]
      rw [Writer.add_append, Writer.add_append]
      simp
  cases as with
  | nil => exact (Writer.append_nil w).symm
  | cons a as =>
    rw [writeAll, hrest, hwrite]
    rw [Writer.add_append, List.map_cons, intercalate_cons]

theorem writePlan_eq_add (w : Writer) (p : Plan) : d.writePlan w p = w.add d p.lines := by
  apply writeAll_eq_add
  intro w pass
  apply writeAll_eq_add
  exact d.writeGroup_eq_add

end Dialect

def Dialect.procedure (d : Dialect) (name : String) (p : Plan) : List String :=
  (d.openProcedure name).map (Writer.indentation d.unit 1 ++ ·)
    ++ p.lines.map (Line.write d d.unit 2)
    ++ d.closeProcedure.map (Writer.indentation d.unit 1 ++ ·)

def Script.lines (d : Dialect) (s : Script) : List String :=
  d.preamble ++ d.openScript s.name ++ d.procedure "up" s.up ++ [""] ++ d.procedure "down" s.down
    ++ d.closeScript

namespace Dialect

variable (d : Dialect)

theorem writeProcedure_eq_append (name : String) (p : Plan) {w : Writer} (hunit : w.unit = d.unit)
    (hdepth : w.depth = 1) : d.writeProcedure w name p = w.append (d.procedure name p) := by
  unfold writeProcedure procedure
  rw [writePlan_eq_add, Writer.writeLines_eq_append, Writer.add, Writer.outdent_append_indent]
  rw [Writer.writeLines_eq_append, Writer.append_append, Writer.append_append]
  simp only [Writer.indent, Writer.unit_append, Writer.depth_append, hunit, hdepth,
    List.append_assoc]

theorem writePreamble_eq_append {w : Writer} (hdepth : w.depth = 0) :
    d.writePreamble w = w.append d.preamble := by
  have hstep : ∀ {w : Writer}, w.depth = 0 → ∀ text,
      (if text.isEmpty then w.blank else w.line text) = w.append [text] := by
    intro w hdepth text
    split
    . next hempty =>
      rw [Writer.blank_eq_append]
      simp_all
    . rw [Writer.line_eq_append, hdepth, Writer.indentation_zero, String.empty_append]
  unfold writePreamble
  generalize d.preamble = texts
  induction texts generalizing w with
  | nil => exact (Writer.append_nil w).symm
  | cons text texts ih =>
    rw [List.foldl_cons, hstep hdepth, ih (w := w.append [text]) hdepth]
    exact Writer.append_append _ _ _

end Dialect

theorem Script.render_eq (d : Dialect) (s : Script) :
    s.render d = "\n".intercalate (s.lines d) ++ "\n" := by
  unfold render lines
  rw [d.writePreamble_eq_append rfl]
  rw [Writer.writeLines_eq_append, Writer.append_append]
  simp only [Writer.unit_append, Writer.depth_append, Writer.indentation_zero, String.empty_append,
    List.map_id']
  rw [d.writeProcedure_eq_append "up" s.up rfl rfl, Writer.blank_eq_append, Writer.append_append]
  rw [d.writeProcedure_eq_append "down" s.down rfl rfl, Writer.append_append]
  rw [Writer.outdent_append_indent, Writer.writeLines_eq_append, Writer.append_append]
  simp [Writer.text, Writer.append, Writer.indentation_zero]

end SchemaMigration
