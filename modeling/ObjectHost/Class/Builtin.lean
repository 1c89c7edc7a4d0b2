-- SUMMARY: The builtin exception classes and the names every realm relies on.
import ObjectHost.Class.Forest

/-!
# Builtin classes

The classes that every realm starts with: the root and its three core classes,
and the tree of exception classes beneath `BaseException`.
-/

namespace ObjectHost.Builtin

/-! ## Core names -/

def functionClass : String := "function"
def methodClass : String := "method"
def moduleClass : String := "module"
def baseException : String := "BaseException"

/-- The member that runs when an instance is made. -/
def initMember : String := "__init__"

/-- The attribute under which an exception answers with its payload. -/
def messageAttribute : String := "message"

/-- The attribute under which a module answers with its declared name. -/
def nameAttribute : String := "__name__"

/-- The declared name of the module a program starts with. -/
def mainModule : String := "__main__"

/-- What stands before the class name in the full text of an exception. -/
def defaultQualifier : String := "pyhost"

/-! ## Exceptions the host raises itself -/

def importError : String := "ImportError"
def attributeError : String := "AttributeError"
def nameError : String := "NameError"
def typeError : String := "TypeError"

/-! ## The table -/

private def leaf (name : String) : ClassNode := .node name []

/-- The exception classes beneath `BaseException`. -/
def exceptions : Forest := [
  leaf "SystemExit",
  leaf "KeyboardInterrupt",
  leaf "GeneratorExit",
  .node "Exception" [
    leaf "StopIteration",
    .node "StandardError" [
      leaf "BufferError",
      .node "ArithmeticError" [
        leaf "FloatingPointError",
        leaf "OverflowError",
        leaf "ZeroDivisionError"],
      leaf "AssertionError",
      leaf "AttributeError",
      .node "EnvironmentError" [
        leaf "IOError",
        leaf "OSError"],
      leaf "EOFError",
      leaf "ImportError",
      .node "LookupError" [
        leaf "IndexError",
        leaf "KeyError"],
      leaf "MemoryError",
      .node "NameError" [
        leaf "UnboundLocalError"],
      leaf "ReferenceError",
      .node "RuntimeError" [
        leaf "NotImplementedError"],
      .node "SyntaxError" [
        .node "IndentationError" [
          leaf "TabError"]],
      leaf "SystemError",
      leaf "TypeError",
      .node "ValueError" [
        .node "UnicodeError" [
          leaf "UnicodeDecodeError",
          leaf "UnicodeEncodeError",
          leaf "UnicodeTranslateError"]]],
    .node "Warning" [
      leaf "DeprecationWarning",
      leaf "PendingDeprecationWarning",
      leaf "RuntimeWarning",
      leaf "SyntaxWarning",
      leaf "UserWarning",
      leaf "FutureWarning",
      leaf "ImportWarning",
      leaf "UnicodeWarning",
      leaf "BytesWarning"]]]

end ObjectHost.Builtin
