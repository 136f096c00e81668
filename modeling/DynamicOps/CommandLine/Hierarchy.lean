/-!
The part of a file system that is there on every machine: the usual directories below the root,
the devices, and an empty directory for the program to run in, two levels below the root. Anything
else is taken not to exist.
-/

namespace DynamicOps

/-- Why a file cannot be written. -/
inductive WriteError
  | missingDirectory
  | missingDevice
  | forbidden
  | notDirectory
  | isDirectory
  | storageFull
  | nameTooLong
deriving DecidableEq

/-- The text of a write error, with the number of the system's error. -/
def WriteError.message : WriteError → String
  | missingDirectory => "No such file or directory (os error 2)"
  | missingDevice => "No such device or address (os error 6)"
  | forbidden => "Permission denied (os error 13)"
  | notDirectory => "Not a directory (os error 20)"
  | isDirectory => "Is a directory (os error 21)"
  | storageFull => "No space left on device (os error 28)"
  | nameTooLong => "File name too long (os error 36)"

/-- What becomes of a text that is written to a device. -/
inductive Device
  /-- It is lost. -/
  | sink
  /-- It never fits. -/
  | full
  /-- It has nowhere to go, because no terminal is attached. -/
  | terminal
  /-- It joins what the program prints. -/
  | output
  /-- It joins the errors that the program prints. -/
  | errors
deriving DecidableEq

/-- What becomes of a new file in a directory. -/
inductive Creation
  /-- The file stays in the empty directory of the program. -/
  | kept
  /-- The file is made in another directory. -/
  | elsewhere
  | refused (reason : WriteError)
deriving DecidableEq

/-- What is found under a name. -/
inductive Node
  | device (device : Device)
  | directory (creation : Creation) (entries : List (String × Node))

/-- A directory with the names that are known in it. -/
structure Directory where
  creation : Creation
  entries : List (String × Node)

namespace Directory

/-- What is known under a name. -/
def find? (d : Directory) (name : String) : Option Node :=
  d.entries.lookup name

/-- Directories with names of their own and nothing known in them. -/
def plain (creation : Creation) (names : List String) : List (String × Node) :=
  names.map fun name => (name, .directory creation [])

/-- The streams of the program by their numbers. -/
def streams : Node :=
  .directory (.refused .missingDirectory)
    [("0", .device .sink), ("1", .device .output), ("2", .device .errors)]

/-- The devices. -/
def devices : Node :=
  .directory .elsewhere
    ([ ("null", .device .sink), ("zero", .device .sink), ("random", .device .sink),
       ("urandom", .device .sink), ("full", .device .full), ("tty", .device .terminal),
       ("stdin", .device .sink), ("stdout", .device .output), ("stderr", .device .errors),
       ("fd", streams) ]
      ++ plain .elsewhere ["mqueue", "pts", "shm"])

/-- The processes, of which only the program itself is known; no files can be made there. -/
def processes : Node :=
  let creation : Creation := .refused .missingDirectory
  .directory creation
    (("self", .directory creation [("fd", streams)])
      :: plain creation ["1", "fs", "irq", "net", "sys"])

/-- The settings of the system; no files can be made there. -/
def settings : Node :=
  let creation : Creation := .refused .forbidden
  .directory creation
    (plain creation
      ["block", "bus", "class", "dev", "devices", "firmware", "fs", "kernel", "module", "power"])

/-- The directory for files of a passing kind. -/
def temporary : Directory :=
  ⟨.elsewhere, []⟩

/-- The root of the file system. -/
def root : Directory :=
  ⟨.elsewhere,
    [ ("dev", devices), ("proc", processes), ("sys", settings),
      ("tmp", .directory temporary.creation temporary.entries),
      ("usr", .directory .elsewhere
        (plain .elsewhere
          ["bin", "games", "include", "lib", "lib64", "libexec", "local", "sbin", "share", "src"])),
      ("var", .directory .elsewhere
        (plain .elsewhere
          ["backups", "cache", "lib", "local", "lock", "log", "mail", "opt", "run", "spool",
            "tmp"])) ]
      ++ plain .elsewhere
        ["bin", "boot", "etc", "home", "lib", "lib64", "media", "mnt", "opt", "root", "run",
          "sbin", "srv"]⟩

/-- The empty directory that the program runs in. -/
def working : Directory :=
  ⟨.kept, []⟩

end Directory

end DynamicOps
