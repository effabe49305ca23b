import ComponentCompiler.Module.Generate

/-! The loader of bundles. A bundle holds its modules in a table by their numbers. -/

namespace ComponentCompiler.Loader

def globalName : String := "__loomRequired"

def table (modules : List GeneratedModule) : String :=
  if modules.isEmpty then Script.Writer.braces ""
  else
    let sorted := sortBy (fun a b => a.id ≤ b.id) modules
    Script.Writer.braces ("\n" ++ Text.join ",\n" (sorted.map fun m => toString m.id ++ ": " ++ m.code) ++ "\n")

def lines : List String :=
  [ "var __cache = \x7b\x7d;",
    "var __pending = \x7b\x7d;",
    "function __required(id, name) \x7b",
    "  var exports = __cache[id];",
    "  if (!exports) \x7b",
    "    var factory = __modules[id];",
    "    if (!factory) \x7b",
    "      throw new Error('[loom] module ' + id + ' is not loaded');",
    "    \x7d",
    "    exports = __cache[id] = \x7b\x7d;",
    "    factory(exports, __required);",
    "  \x7d",
    "  return name === undefined ? exports : exports[name];",
    "\x7d",
    "__required.r = function (exports, name, get) \x7b",
    "  Object.defineProperty(exports, name, \x7b enumerable: true, configurable: true, get: get \x7d);",
    "\x7d;",
    "__required.e = function (exports, source) \x7b",
    "  Object.keys(source).forEach(function (key) \x7b",
    "    if (key !== 'default' && !Object.prototype.hasOwnProperty.call(exports, key)) \x7b",
    "      __required.r(exports, key, function () \x7b return source[key]; \x7d);",
    "    \x7d",
    "  \x7d);",
    "\x7d;",
    "__required.base = '';",
    "__required.c = function (chunkId, modules, deps) \x7b",
    "  Object.keys(modules).forEach(function (id) \x7b __modules[id] = modules[id]; \x7d);",
    "  var pending = __pending[chunkId];",
    "  if (pending) \x7b",
    "    Promise.all(deps.map(__required.l)).then(function () \x7b",
    "      pending.resolve(__required(chunkId));",
    "    \x7d, pending.reject);",
    "  \x7d",
    "\x7d;",
    "__required.l = function (chunkId) \x7b",
    "  if (__modules[chunkId]) \x7b",
    "    return Promise.resolve(__required(chunkId));",
    "  \x7d",
    "  if (!__pending[chunkId]) \x7b",
    "    var entry = __pending[chunkId] = \x7b\x7d;",
    "    entry.promise = new Promise(function (resolve, reject) \x7b",
    "      entry.resolve = resolve;",
    "      entry.reject = reject;",
    "      var script = document.createElement('script');",
    "      script.src = __required.base + 'chunk-' + chunkId + '.js';",
    "      script.onerror = function () \x7b",
    "        reject(new Error('[loom] failed to load chunk ' + chunkId));",
    "      \x7d;",
    "      document.head.appendChild(script);",
    "    \x7d);",
    "  \x7d",
    "  return __pending[chunkId].promise;",
    "\x7d;"]

def script (table : String) : String := "var __modules = " ++ table ++ ";\n" ++ Text.join "\n" lines

def entryScript (entry : Nat) : String := "var __entry = " ++ module entry ++ ";\n"

end ComponentCompiler.Loader
