/-!
This module contains the writing of indented lines.
-/

namespace SchemaMigration

structure Writer where
  unit : String
  depth : Nat := 0
  lines : Array String := #[]
  deriving DecidableEq

namespace Writer

def indentation (unit : String) (depth : Nat) : String :=
  String.join (List.replicate depth unit)

def line (w : Writer) (text : String) : Writer :=
  { w with lines := w.lines.push (indentation w.unit w.depth ++ text) }

def blank (w : Writer) : Writer :=
  { w with lines := w.lines.push "" }

def indent (w : Writer) : Writer :=
  { w with depth := w.depth + 1 }

/--
Go back one level. On the outermost level there is no way back.
-/
def outdent (w : Writer) : Writer :=
  { w with depth := w.depth - 1 }

def writeLines (w : Writer) (texts : List String) : Writer :=
  texts.foldl line w

def text (w : Writer) : String :=
  "\n".intercalate w.lines.toList ++ "\n"

@[simp]
theorem lines_line (w : Writer) (text : String) :
    (w.line text).lines = w.lines.push (indentation w.unit w.depth ++ text) := rfl

@[simp]
theorem lines_blank (w : Writer) : w.blank.lines = w.lines.push "" := rfl

@[simp]
theorem lines_indent (w : Writer) : w.indent.lines = w.lines := rfl

@[simp]
theorem lines_outdent (w : Writer) : w.outdent.lines = w.lines := rfl

@[simp]
theorem depth_line (w : Writer) (text : String) : (w.line text).depth = w.depth := rfl

@[simp]
theorem depth_blank (w : Writer) : w.blank.depth = w.depth := rfl

@[simp]
theorem depth_indent (w : Writer) : w.indent.depth = w.depth + 1 := rfl

@[simp]
theorem depth_outdent (w : Writer) : w.outdent.depth = w.depth - 1 := rfl

end Writer

end SchemaMigration
