/-!
# What can go wrong

Failures are causes: each names what was found, and the wording is kept apart in `message`. The
four smaller types are the reasons that belong to a container as a whole, to one record of its
directory, to a feature that is not supported, and to the devices underneath.

## Main definitions

* `ArchiveFault`, `RecordFault`, `UnsupportedFeature`, `DeviceFault` — the reasons.
* `Failure` — everything that an operation on containers can fail with.
* `Failure.message` — its wording.
-/

namespace RomArchive

/-- Why a file is not a usable container. -/
inductive ArchiveFault where
  | badEndRecord
  | badLocator
  | badWideEndRecord
  | missingEndRecord
  | missingLocator
  | multiDisk
  | directoryOutside
  | noEntries
  | truncatedDirectory
  | badDirectorySignature
  | badLocalHeader
  deriving DecidableEq

def ArchiveFault.reason : ArchiveFault → String
  | badEndRecord => "bad end of central directory"
  | badLocator => "bad ZIP64 locator"
  | badWideEndRecord => "bad ZIP64 end of central directory"
  | missingEndRecord => "end of central directory not found"
  | missingLocator => "missing ZIP64 locator"
  | multiDisk => "multi-disk archives are not supported"
  | directoryOutside => "central directory lies outside the archive"
  | noEntries => "archive has no entries"
  | truncatedDirectory => "truncated central directory"
  | badDirectorySignature => "bad central directory signature"
  | badLocalHeader => "bad local file header"

/-- Why the metadata of one record cannot be read. -/
inductive RecordFault where
  | emptyName
  | nulInName
  | malformedExtra
  | missingWideField
  deriving DecidableEq

def RecordFault.reason : RecordFault → String
  | emptyName => "empty name"
  | nulInName => "name contains NUL"
  | malformedExtra => "malformed extra field"
  | missingWideField => "missing ZIP64 extra field"

/-- What an entry asks for that is not on offer. -/
inductive UnsupportedFeature where
  | encryption
  | compression (number : UInt16)
  deriving DecidableEq

def UnsupportedFeature.reason : UnsupportedFeature → String
  | encryption => "encrypted entries are not supported"
  | compression number => "compression method " ++ number.toNat.repr

/-- What a file system, a decoder or some other device reports. -/
inductive DeviceFault where
  | notFound
  | alreadyExists
  | notADirectory
  | isADirectory
  | nameTooLong
  | nulInPath
  | incompleteStream
  | corruptStream
  | other (text : String)
  deriving DecidableEq

def DeviceFault.message : DeviceFault → String
  | notFound => "No such file or directory (os error 2)"
  | alreadyExists => "File exists (os error 17)"
  | notADirectory => "Not a directory (os error 20)"
  | isADirectory => "Is a directory (os error 21)"
  | nameTooLong => "File name too long (os error 36)"
  | nulInPath => "file name contained an unexpected NUL byte"
  | incompleteStream => "incomplete deflate stream"
  | corruptStream => "corrupt deflate stream"
  | other text => text

/-- Everything that an operation on containers can fail with. -/
inductive Failure where
  | notAContainer (path : String)
  | invalidArchive (fault : ArchiveFault)
  | handleClosed
  | emptyName
  | entryNotFound (name : String)
  | unreadableEntry (name : String) (fault : RecordFault)
  | unsupported (name : String) (feature : UnsupportedFeature)
  | tooLarge (name : String) (size limit : Nat)
  | sizeMismatch (name : String) (expected actual : Nat)
  | crcMismatch (name : String) (expected actual : UInt32)
  | scratchExists (path : String)
  | noMedia (path : String)
  | pathTooLong (path : String) (needed capacity : Nat)
  | device (fault : DeviceFault)
  deriving DecidableEq

/-- A checksum as eight lower-case hexadecimal digits. -/
def checksumText (checksum : UInt32) : String :=
  let digits := Nat.toDigits 16 checksum.toNat
  String.ofList (List.replicate (8 - digits.length) '0' ++ digits)

/-- A text between single quotes, unaltered. -/
def quoted (text : String) : String :=
  "'" ++ text ++ "'"

/-- The wording of a failure. -/
def Failure.message : Failure → String
  | notAContainer path => "not a ZIP container: " ++ quoted path
  | invalidArchive fault => "invalid ZIP archive: " ++ fault.reason
  | handleClosed => "archive handle is closed"
  | emptyName => "entry name is empty"
  | entryNotFound name => "entry not found: " ++ quoted name
  | unreadableEntry name fault =>
    "metadata for entry " ++ quoted name ++ " is unreadable: " ++ fault.reason
  | unsupported name feature => "entry " ++ quoted name ++ " is not supported: " ++ feature.reason
  | tooLarge name size limit =>
    "entry " ++ quoted name ++ " declares " ++ size.repr ++ " bytes, limit is " ++ limit.repr
  | sizeMismatch name expected actual =>
    "entry " ++ quoted name ++ " declares " ++ expected.repr ++ " bytes but " ++ actual.repr ++
      " were read"
  | crcMismatch name expected actual =>
    "entry " ++ quoted name ++ " failed CRC check: expected " ++ checksumText expected ++
      ", got " ++ checksumText actual
  | scratchExists path => "scratch file already exists: " ++ quoted path
  | noMedia path => "no media entry found in " ++ quoted path
  | pathTooLong path needed capacity =>
    "path " ++ quoted path ++ " needs " ++ needed.repr ++ " bytes, buffer holds " ++
      capacity.repr
  | device fault => fault.message

end RomArchive
