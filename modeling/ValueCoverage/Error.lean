import ValueCoverage.Bytecode.Error
import ValueCoverage.ClassFile.Error
import ValueCoverage.Descriptor.Reader
import ValueCoverage.Options.Error
import ValueCoverage.Store.Format

/-!
# Failures

What can go wrong in a run, from a descriptor to a call into the virtual machine.
-/

namespace ValueCoverage

/-- Why a file, or something like a file, cannot be read or written. -/
inductive IoFault where
  | notFound
  /-- A folder stands where a file should. -/
  | isDirectory
  /-- A file stands where a folder should. -/
  | notDirectory
  /-- A name or the whole path is too long. -/
  | nameTooLong
  /-- The path holds the character that ends texts. -/
  | zeroInName
  /-- A line is not UTF-8. -/
  | notText
  /-- What the device says. -/
  | stated (message : String)
deriving Repr, DecidableEq

def IoFault.message : IoFault → String
  | .notFound => "No such file or directory (os error 2)"
  | .isDirectory => "Is a directory (os error 21)"
  | .notDirectory => "Not a directory (os error 20)"
  | .nameTooLong => "File name too long (os error 36)"
  | .zeroInName => "file name contained an unexpected NUL byte"
  | .notText => "stream did not contain valid UTF-8"
  | .stated message => message

/-- Every failure of a run. -/
inductive CoverageError where
  | descriptor (error : DescriptorError)
  | codec (error : CodecError)
  | io (fault : IoFault)
  /-- A line of a coverage file does not fit. -/
  | line (number : Nat) (fault : LineFault)
  /-- The initializer failed on an earlier call. -/
  | initialization (message : String)
  | classFile (error : ClassFileError)
  | bytecode (error : BytecodeError)
  /-- A method would exceed the greatest length of code. -/
  | codeTooLarge (member : String) (size : Nat)
  | options (error : OptionError)
  /-- A call of the tool interface returned an error code. -/
  | tool (call : String) (code : Nat)
  /-- A call of the native interface failed. -/
  | native (call : String)
  | alreadyInstalled
deriving Repr, DecidableEq

namespace CoverageError

def kind : CoverageError → String
  | .descriptor _ => "MalformedSignature"
  | .codec _ => "CodecResolution"
  | .io _ => "Io"
  | .line _ _ => "Format"
  | .initialization _ => "Initialization"
  | .classFile _ => "ClassFile"
  | .bytecode _ => "Bytecode"
  | .codeTooLarge _ _ => "CodeTooLarge"
  | .options _ => "Config"
  | .tool _ _ => "Jvmti"
  | .native _ => "Jni"
  | .alreadyInstalled => "AlreadyInstalled"

def message : CoverageError → String
  | .descriptor error => "malformed signature: " ++ error.message
  | .codec error => "codec resolution failed: " ++ error.message
  | .io fault => "I/O failure: " ++ fault.message
  | .line number fault => s!"coverage file line {number}: {fault.message}"
  | .initialization message => "coverage initializer failed earlier: " ++ message
  | .classFile error => "class file: " ++ error.message
  | .bytecode error => "bytecode: " ++ error.message
  | .codeTooLarge member size =>
    s!"method {member} too large after instrumentation ({size} bytes)"
  | .options error => "configuration: " ++ error.message
  | .tool call code => s!"JVMTI error {code} in {call}"
  | .native call => s!"JNI failure in {call}"
  | .alreadyInstalled => "runtime already installed"

/-- The failure of a coverage file that is not read. -/
def ofRead : ReadFault → CoverageError
  | .notText => .io .notText
  | .line number fault => .line number fault

end CoverageError

end ValueCoverage
