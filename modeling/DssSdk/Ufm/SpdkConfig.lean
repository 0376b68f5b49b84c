import DssSdk.Lib.Pattern
import DssSdk.Lib.SortedTable
import Mathlib.Data.Char
import Mathlib.Data.List.DropRight
import Mathlib.Data.List.Lex

/-!
# The configuration file of the target

`spdk_config.py` of the agent reads the configuration file into an array of sections, edits the array
and writes it back.

* `readLine`, `readLocalConfig`: the reader, with a rule for each kind of line;
* `writeLocalConfig`: the writer, with one rule for all;
* `updateNamespacesLocalConfig`, `appendSubsystemLocalConfig`, `deleteSubsystemLocalConfig`: the edits;
* `saveTempLocalConfig`: what a change of a subsystem does with the file.

A string of Python 2 is a list of bytes; a byte is a character here. `str.encode` decodes its
argument as ASCII first, so that it fails on other bytes. `none` stands for an exception. A
dictionary is its table of entries in ascending order, the order in which the writer takes them. The
digest of `hashlib.sha1` is a parameter.
-/

namespace DssSdk.Ufm.SpdkConfig

/-- A string. -/
abbrev Bytes := List Char

/-- A property of all characters of a string is decided by going through the string. -/
instance decidableBall (bs : Bytes) (p : Char → Prop) [DecidablePred p] : Decidable (∀ c ∈ bs, p c) :=
  List.decidableBAll p bs

/-- A dictionary of strings. -/
structure Dict where
  entries : List (Bytes × Bytes)
  sorted : SortedTable.Sorted entries
  deriving DecidableEq

namespace Dict

@[ext] theorem ext {d d' : Dict} (h : d.entries = d'.entries) : d = d' := by
  cases d
  cases d'
  cases h
  rfl

/-- `{}`. -/
def empty : Dict := ⟨[], List.Pairwise.nil⟩

/-- `d[key] = value`. -/
def set (d : Dict) (key value : Bytes) : Dict :=
  ⟨SortedTable.put key value d.entries, d.sorted.put key value⟩

/-- `key in d`. -/
def contains (d : Dict) (key : Bytes) : Bool := (SortedTable.get key d.entries).isSome

end Dict

/-- A dictionary with one key, the name of a section, for the lines of the section. -/
structure Section where
  name : Bytes
  dict : Dict
  deriving DecidableEq

/-! ### Reading -/

/-- `\s` of a pattern. -/
def isSpace (c : Char) : Bool :=
  c = ' ' || c = '\t' || c = '\n' || c = '\r' || c = '\x0b' || c = '\x0c'

/-- `\d` of a pattern. -/
def isDigit (c : Char) : Bool := '0' ≤ c && c ≤ '9'

/-- `.` of a pattern. -/
def notNewline (c : Char) : Bool := c ≠ '\n'

/-- `"TransportId"`. -/
def transportIdWord : Bytes := ['T', 'r', 'a', 'n', 's', 'p', 'o', 'r', 't', 'I', 'd']

/-- `"Listen"`. -/
def listenWord : Bytes := ['L', 'i', 's', 't', 'e', 'n']

/-- `"Namespace"`. -/
def namespaceWord : Bytes := ['N', 'a', 'm', 'e', 's', 'p', 'a', 'c', 'e']

/-- `"Qos_host"`. -/
def qosHostWord : Bytes := ['Q', 'o', 's', '_', 'h', 'o', 's', 't']

/-- `^(\[.+?\])$`. -/
def headerPattern : List Pattern.Item := [.lit ['['], .plusLazy notNewline, .lit [']']]

/-- The first group of the pattern for a namespace: `Namespace\s+\".+?\"`. -/
def namespaceKey : List Pattern.Item :=
  [.lit namespaceWord, .plus isSpace, .lit ['"'], .plusLazy notNewline, .lit ['"']]

/-- `^(Namespace\s+\".+?\")\s+(\d+)$`. -/
def namespacePattern : List Pattern.Item := namespaceKey ++ [.plus isSpace, .plus isDigit]

/-- `^(Qos_host\s+.+?)\s+(\".+?\")$`. -/
def qosHostPattern : List Pattern.Item :=
  [.lit qosHostWord, .plus isSpace, .plusLazy notNewline, .plus isSpace, .lit ['"'],
    .plusLazy notNewline, .lit ['"']]

/-- The two groups of a match: the first pieces, and what comes behind the next one. -/
def groups (n : ℕ) (ps : List Bytes) : Bytes × Bytes :=
  ((ps.take n).flatten, (ps.drop (n + 1)).flatten)

/-- `re.match` with the pattern for a namespace. -/
def matchNamespace (line : Bytes) : Option (Bytes × Bytes) :=
  (Pattern.firstMatch namespacePattern line).map (groups 5)

/-- `re.match` with the pattern for a host. -/
def matchQosHost (line : Bytes) : Option (Bytes × Bytes) :=
  (Pattern.firstMatch qosHostPattern line).map (groups 3)

/-- A character that `strip` removes. -/
def isLineBreak (c : Char) : Bool := c = '\r' || c = '\n'

/-- `line.strip('\r\n')`. -/
def strip (line : Bytes) : Bytes := (line.dropWhile isLineBreak).rdropWhile isLineBreak

/-- `key, value = s.split(' ', 1)`. -/
def splitFirst (s : Bytes) : Option (Bytes × Bytes) :=
  match s.dropWhile (· ≠ ' ') with
  | [] => none
  | _ :: value => some (s.takeWhile (· ≠ ' '), value)

/-- `key, value = s.rsplit(' ', 1)`. -/
def splitLast (s : Bytes) : Option (Bytes × Bytes) :=
  (splitFirst s.reverse).map fun (value, key) => (key.reverse, value.reverse)

/-- The key and the value of a line in a section; `none` when it is skipped. -/
def parseEntry (line : Bytes) : Option (Bytes × Bytes) :=
  if transportIdWord.isPrefixOf line then splitLast (strip line)
  else if listenWord.isPrefixOf line then some (strip line, [])
  else if namespaceWord.isPrefixOf line then matchNamespace line
  else if qosHostWord.isPrefixOf line then matchQosHost line
  else splitFirst (strip line)

/-- An assignment in the last section. -/
def setLast (arr : List Section) (key value : Bytes) : List Section :=
  match arr.getLast? with
  | none => arr
  | some s => arr.dropLast ++ [⟨s.name, s.dict.set key value⟩]

/-- One line in `read_local_config`. -/
def readLine (arr : List Section) (line : Bytes) : List Section :=
  if ['#'].isPrefixOf line then arr
  else
    match Pattern.firstMatch headerPattern line with
    | some ps => arr ++ [⟨ps.flatten, Dict.empty⟩]
    | none =>
        match parseEntry line with
        | some (key, value) => setLast arr key value
        | none => arr

/-- `readlines`. -/
def readlines : Bytes → List Bytes
  | [] => []
  | c :: s =>
      if c = '\n' then ['\n'] :: readlines s
      else
        match readlines s with
        | [] => [[c]]
        | line :: lines => (c :: line) :: lines

/-- `read_local_config` of a file. -/
def readLocalConfig (file : Bytes) : List Section := (readlines file).foldl readLine []

/-! ### Writing -/

/-- `str.encode`. -/
def encode (s : Bytes) : Option Bytes := if s.all (fun c => c.toNat < 128) then some s else none

/-- `"%s %s"`. -/
def line (e : Bytes × Bytes) : Bytes := e.1 ++ ' ' :: e.2

/-- The lines of a section. -/
def writeSection (s : Section) : Option Bytes :=
  (s.dict.entries.mapM fun e => encode (line e ++ ['\n'])).map fun lines =>
    s.name ++ ['\n'] ++ lines.flatten ++ ['\n']

/-- `# AUTO-GENERATED FILE - DO NOT EDIT`. -/
def banner : Bytes :=
  ['#', ' ', 'A', 'U', 'T', 'O', '-', 'G', 'E', 'N', 'E', 'R', 'A', 'T', 'E', 'D', ' ', 'F', 'I', 'L',
    'E', ' ', '-', ' ', 'D', 'O', ' ', 'N', 'O', 'T', ' ', 'E', 'D', 'I', 'T']

/-- `write_local_config`: the file. -/
def writeLocalConfig (arr : List Section) : Option Bytes :=
  (arr.mapM writeSection).map fun sections => banner ++ ['\n'] ++ sections.flatten

/-! ### Editing -/

/-- An entry of `config["namespaces"]`. -/
structure Namespace where
  serial : Bytes
  pciAddress : Bytes
  nsid : Bytes
  deriving DecidableEq, Repr

/-- An entry of `config["transport_addresses"]`. -/
structure Address where
  trtype : Bytes
  traddr : Bytes
  trsvcid : Bytes
  deriving DecidableEq, Repr

/-- The parameter `config`, with the values of its dictionaries in the order of a loop. -/
structure Config where
  nqn : Bytes
  transportAddresses : List Address
  namespaces : List Namespace
  deriving DecidableEq, Repr

/-- `[Nvme]`. -/
def nvmeName : Bytes := ['[', 'N', 'v', 'm', 'e', ']']

/-- `TransportId "trtype:PCIe traddr:%s"`. -/
def transportKey (pciAddress : Bytes) : Bytes :=
  transportIdWord ++ [' ', '"', 't', 'r', 't', 'y', 'p', 'e', ':', 'P', 'C', 'I', 'e', ' ', 't', 'r',
    'a', 'd', 'd', 'r', ':'] ++ pciAddress ++ ['"']

/-- The loop of `update_namespaces_local_config` for one namespace. -/
def addTransport (d : Dict) (ns : Namespace) : Dict :=
  if d.contains (transportKey ns.pciAddress) then d
  else d.set (transportKey ns.pciAddress) ('"' :: ns.serial ++ ['"'])

/-- A section whose name starts with `[Nvme]`. -/
def isNvme (s : Section) : Bool := nvmeName.isPrefixOf s.name

/-- A change of the first section whose name starts with `[Nvme]`. The lookup of the key `[Nvme]`
fails when the name is longer. -/
def modifyNvme (f : Dict → Dict) : List Section → Option (List Section)
  | [] => none
  | s :: arr =>
      if isNvme s then
        if s.name = nvmeName then some (⟨s.name, f s.dict⟩ :: arr) else none
      else (modifyNvme f arr).map (s :: ·)

/-- `update_namespaces_local_config`. -/
def updateNamespacesLocalConfig (nsArr : List Section) (config : Config) : Option (List Section) :=
  let nsArr := if nsArr.any isNvme then nsArr else nsArr ++ [⟨nvmeName, Dict.empty⟩]
  if config.namespaces = [] then some nsArr
  else modifyNvme (fun d => config.namespaces.foldl addTransport d) nsArr

/-- `[Subsystem_%s]`. -/
def subsystemName (nqn : Bytes) : Bytes :=
  ['[', 'S', 'u', 'b', 's', 'y', 's', 't', 'e', 'm', '_'] ++ nqn ++ [']']

/-- `Listen %s %s:%s`. -/
def listenKey (a : Address) : Bytes :=
  listenWord ++ ' ' :: a.trtype ++ ' ' :: a.traddr ++ ':' :: a.trsvcid

/-- `Namespace "%sn1"`. -/
def namespaceKeyOf (serial : Bytes) : Bytes :=
  namespaceWord ++ [' ', '"'] ++ serial ++ ['n', '1', '"']

section

variable (hexdigest : Bytes → Bytes)

/-- `append_subsystem_local_config`. -/
def appendSubsystemLocalConfig (arr : List Section) (config : Config) : Option (List Section) :=
  -- `config["NQN"].encode("UTF-8")`
  (encode config.nqn).map fun nqn =>
    let serialNumber := (hexdigest nqn).take 20
    let d := ((Dict.empty.set ['N', 'Q', 'N'] config.nqn).set ['S', 'N'] serialNumber).set
      ['A', 'l', 'l', 'o', 'w', 'A', 'n', 'y', 'H', 'o', 's', 't'] ['Y', 'e', 's']
    let d := config.transportAddresses.foldl (fun d a => d.set (listenKey a) []) d
    let d := config.namespaces.foldl (fun d ns => d.set (namespaceKeyOf ns.serial) ns.nsid) d
    arr ++ [⟨subsystemName config.nqn, d⟩]

/-- `delete_subsystem_local_config`. -/
def deleteSubsystemLocalConfig (arr : List Section) (name : Bytes) : List Section :=
  arr.eraseP fun s => s.name = name

/-- An edit of the array. -/
inductive Edit
  | update (config : Config)
  | append (config : Config)
  | delete (name : Bytes)
  deriving DecidableEq, Repr

/-- One edit. -/
def edit (arr : List Section) : Edit → Option (List Section)
  | .update config => updateNamespacesLocalConfig arr config
  | .append config => appendSubsystemLocalConfig hexdigest arr config
  | .delete name => some (deleteSubsystemLocalConfig arr name)

/-- The edits of a list, one after the other. -/
def edits (arr : List Section) : List Edit → Option (List Section)
  | [] => some arr
  | e :: es => (edit hexdigest arr e).bind fun arr => edits arr es

/-- `save_temp_local_config`, and the file that takes the place of the old one. -/
def saveTempLocalConfig (file : Bytes) (subsystem : Config) (delete : Bool) : Option Bytes :=
  (updateNamespacesLocalConfig (readLocalConfig file) subsystem).bind fun arr =>
    if delete then
      writeLocalConfig (deleteSubsystemLocalConfig arr (subsystemName subsystem.nqn))
    else (appendSubsystemLocalConfig hexdigest arr subsystem).bind writeLocalConfig

end

end DssSdk.Ufm.SpdkConfig
