/-
The declarations every class path starts with: the classes of the
standard library that raise or handle checked exceptions, and the object
mappers of both generations.

Chain: class path layer, after `Basic`; read by the command line.
-/
import JavaRefit.ClassPath.Basic

namespace JavaRefit

namespace Builtin

private def string : String := "java.lang.String"

private def throwable : String := "java.lang.Throwable"

private def ioException : String := "java.io.IOException"

private def processingException : String :=
  "com.fasterxml.jackson.core.JsonProcessingException"

private def mappingException : String :=
  "com.fasterxml.jackson.databind.JsonMappingException"

private def jsonNode : String := "com.fasterxml.jackson.databind.JsonNode"

private def objectReader : String :=
  "com.fasterxml.jackson.databind.ObjectReader"

private def objectWriter : String :=
  "com.fasterxml.jackson.databind.ObjectWriter"

private def jacksonException : String := "tools.jackson.core.JacksonException"

private def exception : String := "java.lang.Exception"

private def runtimeException : String := "java.lang.RuntimeException"

private def path : String := "java.nio.file.Path"

private def classObject : String := "java.lang.Class"

/-- A method that raises nothing. -/
private def method (name : String) (params : List String) (returns : String) :
    MethodInfo :=
  ⟨name, params, some returns, []⟩

/-- A constructor that raises nothing. -/
private def constructor (params : List String) : MethodInfo :=
  ⟨"<constructor>", params, none, []⟩

/-- A member that raises some exceptions. -/
private def raising (throws : List String) (m : MethodInfo) : MethodInfo :=
  { m with throws }

/-- Without arguments, or with a message. -/
private def messageConstructors : List MethodInfo :=
  [constructor [], constructor [string]]

/-- Without arguments, with a message, or with a message and a cause. -/
private def causeConstructors : List MethodInfo :=
  [constructor [], constructor [string], constructor [string, throwable]]

/-- The language's own classes. -/
def javaLang : List ClassInfo :=
  [⟨"java.lang.Object", .ordinary, none, [],
    [method "toString" [] string,
     method "hashCode" [] "int",
     method "equals" [objectName] "boolean",
     method "getClass" [] classObject], []⟩,
   ⟨"java.lang.CharSequence", .interface, none, [],
    [method "length" [] "int"], []⟩,
   ⟨"java.lang.String", .ordinary, some objectName, ["java.lang.CharSequence"],
    [method "length" [] "int",
     method "isEmpty" [] "boolean",
     method "trim" [] string,
     method "getBytes" [] "byte[]"], []⟩,
   ⟨"java.lang.Class", .ordinary, some objectName, [],
    [], []⟩,
   ⟨"java.lang.Iterable", .interface, none, [],
    [], []⟩,
   ⟨"java.lang.AutoCloseable", .interface, none, [],
    [raising [exception] (method "close" [] "void")], []⟩,
   ⟨"java.lang.Throwable", .ordinary, some objectName, [],
    [method "getMessage" [] string,
     method "getCause" [] throwable,
     method "printStackTrace" [] "void"],
    causeConstructors⟩,
   ⟨"java.lang.Exception", .ordinary, some throwable, [],
    [], causeConstructors⟩,
   ⟨"java.lang.Error", .ordinary, some throwable, [],
    [], []⟩,
   ⟨"java.lang.RuntimeException", .ordinary, some exception, [],
    [], causeConstructors⟩,
   ⟨"java.lang.IllegalStateException", .ordinary, some runtimeException, [],
    [], causeConstructors⟩,
   ⟨"java.lang.IllegalArgumentException", .ordinary, some runtimeException, [],
    [], causeConstructors⟩,
   ⟨"java.lang.UnsupportedOperationException", .ordinary,
     some runtimeException, [],
    [], messageConstructors⟩]

/-- Streams, readers and their exceptions. -/
def javaIo : List ClassInfo :=
  [⟨"java.io.IOException", .ordinary, some exception, [],
    [], causeConstructors⟩,
   ⟨"java.io.FileNotFoundException", .ordinary, some ioException, [],
    [], messageConstructors⟩,
   ⟨"java.io.EOFException", .ordinary, some ioException, [],
    [], messageConstructors⟩,
   ⟨"java.io.UncheckedIOException", .ordinary, some runtimeException, [],
    [], [constructor [ioException], constructor [string, ioException]]⟩,
   ⟨"java.io.Closeable", .interface, none, ["java.lang.AutoCloseable"],
    [raising [ioException] (method "close" [] "void")], []⟩,
   ⟨"java.io.File", .ordinary, some objectName, [],
    [method "getName" [] string,
     method "exists" [] "boolean",
     method "toPath" [] path],
    [constructor [string]]⟩,
   ⟨"java.io.InputStream", .ordinary, some objectName, ["java.io.Closeable"],
    [raising [ioException] (method "read" [] "int"),
     raising [ioException] (method "readAllBytes" [] "byte[]"),
     raising [ioException] (method "close" [] "void")], []⟩,
   ⟨"java.io.FileInputStream", .ordinary, some "java.io.InputStream", [],
    [],
    [raising ["java.io.FileNotFoundException"] (constructor [string])]⟩,
   ⟨"java.io.OutputStream", .ordinary, some objectName, ["java.io.Closeable"],
    [raising [ioException] (method "write" ["int"] "void"),
     raising [ioException] (method "flush" [] "void"),
     raising [ioException] (method "close" [] "void")], []⟩,
   ⟨"java.io.FileOutputStream", .ordinary, some "java.io.OutputStream", [],
    [],
    [raising ["java.io.FileNotFoundException"] (constructor [string])]⟩,
   ⟨"java.io.Reader", .ordinary, some objectName, ["java.io.Closeable"],
    [raising [ioException] (method "read" [] "int"),
     raising [ioException] (method "close" [] "void")], []⟩,
   ⟨"java.io.StringReader", .ordinary, some "java.io.Reader", [],
    [], [constructor [string]]⟩,
   ⟨"java.io.BufferedReader", .ordinary, some "java.io.Reader", [],
    [raising [ioException] (method "readLine" [] string)],
    [constructor ["java.io.Reader"]]⟩,
   ⟨"java.io.Writer", .ordinary, some objectName, ["java.io.Closeable"],
    [raising [ioException] (method "write" [string] "void"),
     raising [ioException] (method "flush" [] "void"),
     raising [ioException] (method "close" [] "void")], []⟩,
   ⟨"java.io.StringWriter", .ordinary, some "java.io.Writer", [],
    [], [constructor []]⟩]

/-- Addresses. -/
def javaNet : List ClassInfo :=
  [⟨"java.net.MalformedURLException", .ordinary, some ioException, [],
    [], []⟩,
   ⟨"java.net.URL", .ordinary, some objectName, [],
    [raising [ioException] (method "openStream" [] "java.io.InputStream")],
    [raising ["java.net.MalformedURLException"] (constructor [string])]⟩]

/-- Paths and files. -/
def javaFile : List ClassInfo :=
  [⟨"java.nio.file.Path", .interface, none, [],
    [method "getFileName" [] path,
     method "resolve" [string] path,
     method "toFile" [] "java.io.File"], []⟩,
   ⟨"java.nio.file.Paths", .ordinary, some objectName, [],
    [method "get" [string] path], []⟩,
   ⟨"java.nio.file.Files", .ordinary, some objectName, [],
    [raising [ioException] (method "readString" [path] string),
     raising [ioException] (method "readAllBytes" [path] "byte[]"),
     raising [ioException] (method "writeString"
       [path, "java.lang.CharSequence"] path),
     raising [ioException] (method "newInputStream" [path]
       "java.io.InputStream"),
     raising [ioException] (method "newBufferedReader" [path]
       "java.io.BufferedReader"),
     method "exists" [path] "boolean",
     raising [ioException] (method "delete" [path] "void")], []⟩]

/-- Collections. -/
def javaUtil : List ClassInfo :=
  [⟨"java.util.Collection", .interface, none, ["java.lang.Iterable"],
    [method "size" [] "int",
     method "isEmpty" [] "boolean",
     method "add" [objectName] "boolean"], []⟩,
   ⟨"java.util.List", .interface, none, ["java.util.Collection"],
    [method "get" ["int"] objectName], []⟩,
   ⟨"java.util.ArrayList", .ordinary, some objectName, ["java.util.List"],
    [], [constructor []]⟩,
   ⟨"java.util.Map", .interface, none, [],
    [method "get" [objectName] objectName,
     method "put" [objectName, objectName] objectName,
     method "size" [] "int"], []⟩,
   ⟨"java.util.HashMap", .ordinary, some objectName, ["java.util.Map"],
    [], [constructor []]⟩]

/-- The older object mapper, whose calls raise `IOException` or a subclass. -/
def jacksonTwo : List ClassInfo :=
  [⟨"com.fasterxml.jackson.core.JsonProcessingException", .ordinary,
    some ioException, [], [method "getOriginalMessage" [] string], []⟩,
   ⟨"com.fasterxml.jackson.core.JsonParseException", .ordinary,
     some processingException, [],
    [], []⟩,
   ⟨"com.fasterxml.jackson.databind.JsonMappingException", .ordinary,
     some processingException, [],
    [], []⟩,
   ⟨"com.fasterxml.jackson.core.type.TypeReference", .ordinary,
     some objectName, [],
    [], []⟩,
   ⟨"com.fasterxml.jackson.databind.JsonNode", .ordinary, some objectName, [],
    [method "get" [string] jsonNode,
     method "path" [string] jsonNode,
     method "asText" [] string,
     method "isMissingNode" [] "boolean"], []⟩,
   ⟨"com.fasterxml.jackson.databind.ObjectMapper", .ordinary,
     some objectName, [],
    [raising [processingException, mappingException]
       (method "readValue" [string, classObject] objectName),
     raising [processingException] (method "readTree" [string] jsonNode),
     raising [processingException]
       (method "writeValueAsString" [objectName] string),
     raising [processingException]
       (method "writeValueAsBytes" [objectName] "byte[]"),
     raising [ioException] (method "writeValue"
       ["java.io.File", objectName] "void"),
     method "readerFor" [classObject] objectReader,
     method "writerFor" [classObject] objectWriter,
     method "reader" [] objectReader,
     method "writer" [] objectWriter,
     method "writerWithDefaultPrettyPrinter" [] objectWriter,
     method "valueToTree" [objectName] jsonNode,
     method "convertValue" [objectName, classObject] objectName],
    [constructor []]⟩,
   ⟨"com.fasterxml.jackson.databind.ObjectReader", .ordinary,
     some objectName, [],
    [raising [processingException] (method "readValue" [string] objectName),
     raising [processingException] (method "readTree" [string] jsonNode),
     method "forType" [classObject] objectReader], []⟩,
   ⟨"com.fasterxml.jackson.databind.ObjectWriter", .ordinary,
     some objectName, [],
    [raising [processingException]
      (method "writeValueAsString" [objectName] string),
     raising [ioException] (method "writeValue"
       ["java.io.File", objectName] "void"),
     method "withDefaultPrettyPrinter" [] objectWriter,
     method "forType" [classObject] objectWriter], []⟩]

/-- The newer object mapper, whose exceptions are unchecked. -/
def jacksonThree : List ClassInfo :=
  [⟨"tools.jackson.core.JacksonException", .ordinary, some runtimeException, [],
    [method "getOriginalMessage" [] string], []⟩,
   ⟨"tools.jackson.core.exc.StreamReadException", .ordinary,
     some jacksonException, [],
    [], []⟩,
   ⟨"tools.jackson.core.exc.StreamWriteException", .ordinary,
     some jacksonException, [],
    [], []⟩,
   ⟨"tools.jackson.databind.DatabindException", .ordinary,
     some jacksonException, [],
    [], []⟩]

/-- All of them. -/
def infos : List ClassInfo :=
  javaLang ++ javaIo ++ javaNet ++ javaFile ++ javaUtil ++ jacksonTwo ++
    jacksonThree

end Builtin

/-- The class path of the declarations every class path starts with. -/
def ClassPath.builtin : ClassPath := ClassPath.ofList Builtin.infos

end JavaRefit
