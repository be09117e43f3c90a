import ActionVm.Host.Call

/-!
# What a host gives to scripts

* `defineMethod`, `defineGetter`: a host function or getter as a member of an object;
* `fileObject`, `systemObject`, `domainClass`: the objects of the host;
* **`install`**: a worker whose scripts find them in its global object.
-/

namespace ActionVm.Host

/-- An object gets a host function as a member. -/
def defineMethod (o : ObjectId) (name : String) (f : HostFunction) (s : Store) : Store :=
  let (function, s) := s.addFunction (.host f)
  s.define o name (.object function)

/-- An object gets a computed member that cannot be assigned. -/
def defineGetter (o : ObjectId) (name : String) (g : Getter) (s : Store) : Store :=
  s.modify o (·.defineAccessor name (some g) none)

/-- The object for files. -/
def fileObject (s : Store) : ObjectId × Store :=
  let (o, s) := s.addObject (.ofClass "File" none)
  (o, File.all.foldl (fun s m => defineMethod o (File.name m) (.file m) s) s)

/-- The methods of the system object that come before its computed members. -/
def leadingSystemMethods : List (String × SystemMethod) :=
  [("getFeatures", .getFeatures), ("getRunmode", .getRunmode), ("queueCollection", .idle),
   ("forceFullCollection", .idle), ("pauseForGCIfCollectionImminent", .idle),
   ("getAvmplusVersion", .getVersion), ("isDebugger", .isDebugger), ("isGlobal", .isGlobal)]

/-- The computed members of the system object. -/
def systemGetters : List (String × Getter) :=
  [("freeMemory", .memoryUse), ("totalMemory", .memoryUse), ("privateMemory", .memoryUse),
   ("swfVersion", .swfVersion), ("argv", .arguments)]

/-- The methods of the system object that come after its computed members. -/
def trailingSystemMethods : List (String × SystemMethod) :=
  [("exec", .exec), ("write", .idle), ("sleep", .sleep), ("exit", .idle), ("trace", .trace),
   ("canonicalizeNumber", .canonicalizeNumber)]

/-- The object for the system. -/
def systemObject (s : Store) : ObjectId × Store :=
  let (o, s) := s.addObject (.ofClass "System" none)
  let methods (l : List (String × SystemMethod)) (s : Store) : Store :=
    l.foldl (fun s (name, m) => defineMethod o name (.system m) s) s
  let s := methods leadingSystemMethods s
  let s := systemGetters.foldl (fun s (name, g) => defineGetter o name g s) s
  (o, methods trailingSystemMethods s)

/-- The class of objects for domains. -/
def domainClass (s : Store) : ObjectId × Store :=
  let (proto, s) := s.addObject .plain
  let s := Domain.all.foldl (fun s m => defineMethod proto (Domain.name m) (.domain m) s) s
  let s := s.modify proto
    (·.defineAccessor "domainMemory" (some .domainMemory) (some .domainMemory))
  let (f, s) := s.addFunction (.host (.domainClass proto))
  let s := s.define f "prototype" (.object proto)
  let s := defineGetter f "currentDomain" (.currentDomain proto) s
  (f, defineGetter f "MIN_DOMAIN_MEMORY_LENGTH" .minimumMemory s)

/-- The store in which a global object has the objects of the host. -/
def installIn (global : ObjectId) (s : Store) : Store :=
  let (o, s) := s.addObject (.ofClass "avmplus" none)
  let (file, s) := fileObject s
  let s := s.define o "File" (.object file)
  let (system, s) := systemObject s
  let s := s.define o "System" (.object system)
  let (domain, s) := domainClass s
  let s := s.define o "Domain" (.object domain)
  let s := s.define global "avmplus" (.object o)
  let s := defineMethod global "ByteArray" .byteArrayClass s
  defineMethod global "casi32" .compareAndSwap s

/-- A worker whose scripts find the objects of the host, with the given files and settings. -/
def install (files : Files) (settings : HostSettings) (s : State) : State :=
  ⟨installIn s.worker.global s.store, { s.worker with files := files, settings := settings }⟩

end ActionVm.Host
