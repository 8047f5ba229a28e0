/-!
# Names of built-in symbols

The classes, functions and constants of the PHP engine and of the extensions that are enabled in a
typical build, in their documented spelling.
-/

namespace PhpPrefixer.NativeSymbols

/-- Built-in classes, interfaces and enumerations. -/
def classNames : List String :=
  ["stdClass", "Closure", "Generator", "WeakReference", "WeakMap", "Fiber", "Stringable",
   "Traversable", "Iterator", "IteratorAggregate", "ArrayAccess", "Countable", "Serializable",
   "JsonSerializable", "UnitEnum", "BackedEnum", "Attribute", "ReturnTypeWillChange",
   "AllowDynamicProperties", "SensitiveParameter", "SensitiveParameterValue", "Override",
   "InternalIterator", "__PHP_Incomplete_Class", "php_user_filter", "Directory", "AssertionError",
   "ArithmeticError", "DivisionByZeroError", "CompileError", "ParseError", "TypeError",
   "ArgumentCountError", "ValueError", "UnhandledMatchError", "FiberError", "Error",
   "ErrorException", "Exception", "Throwable", "BadFunctionCallException",
   "BadMethodCallException", "DomainException", "InvalidArgumentException", "LengthException",
   "LogicException", "OutOfBoundsException", "OutOfRangeException", "OverflowException",
   "RangeException", "RuntimeException", "UnderflowException", "UnexpectedValueException",
   "ArrayObject", "ArrayIterator", "RecursiveArrayIterator", "AppendIterator", "CachingIterator",
   "RecursiveCachingIterator", "CallbackFilterIterator", "RecursiveCallbackFilterIterator",
   "DirectoryIterator", "FilesystemIterator", "RecursiveDirectoryIterator", "GlobIterator",
   "EmptyIterator", "FilterIterator", "RecursiveFilterIterator", "ParentIterator",
   "InfiniteIterator", "IteratorIterator", "LimitIterator", "MultipleIterator", "NoRewindIterator",
   "OuterIterator", "RecursiveIterator", "RecursiveIteratorIterator", "RecursiveTreeIterator",
   "RegexIterator", "RecursiveRegexIterator", "SeekableIterator", "SplDoublyLinkedList",
   "SplQueue", "SplStack", "SplHeap", "SplMaxHeap", "SplMinHeap", "SplPriorityQueue",
   "SplFixedArray", "SplObjectStorage", "SplObserver", "SplSubject", "SplFileInfo",
   "SplFileObject", "SplTempFileObject", "DateTime", "DateTimeImmutable", "DateTimeInterface",
   "DateTimeZone", "DateInterval", "DatePeriod", "DateError", "DateObjectError", "DateRangeError",
   "DateException", "DateInvalidOperationException", "DateInvalidTimeZoneException",
   "DateMalformedIntervalStringException", "DateMalformedPeriodStringException",
   "DateMalformedStringException", "JsonException", "HashContext", "Reflection", "Reflector",
   "ReflectionException", "ReflectionClass", "ReflectionObject", "ReflectionMethod",
   "ReflectionFunction", "ReflectionFunctionAbstract", "ReflectionParameter", "ReflectionProperty",
   "ReflectionClassConstant", "ReflectionEnum", "ReflectionEnumUnitCase",
   "ReflectionEnumBackedCase", "ReflectionNamedType", "ReflectionType", "ReflectionUnionType",
   "ReflectionIntersectionType", "ReflectionGenerator", "ReflectionExtension",
   "ReflectionZendExtension", "ReflectionReference", "ReflectionAttribute", "ReflectionFiber",
   "DOMDocument", "DOMElement", "DOMNode", "DOMNodeList", "DOMXPath", "DOMAttr", "DOMText",
   "DOMComment", "DOMException", "DOMImplementation", "DOMDocumentFragment", "DOMNamedNodeMap",
   "DOMCharacterData", "DOMCdataSection", "DOMProcessingInstruction", "DOMEntityReference",
   "SimpleXMLElement", "SimpleXMLIterator", "XMLReader", "XMLWriter", "LibXMLError", "PDO",
   "PDOStatement", "PDOException", "PDORow", "Collator", "NumberFormatter", "Normalizer", "Locale",
   "MessageFormatter", "IntlDateFormatter", "IntlTimeZone", "IntlCalendar",
   "IntlGregorianCalendar", "IntlBreakIterator", "IntlChar", "IntlException", "Transliterator",
   "ResourceBundle", "Spoofchecker", "UConverter", "finfo", "CURLFile", "CURLStringFile",
   "CurlHandle", "CurlMultiHandle", "CurlShareHandle", "SplTempFileObject", "ZipArchive",
   "PharData", "Phar", "PharFileInfo", "PharException", "SessionHandler",
   "SessionHandlerInterface", "SessionIdInterface", "SessionUpdateTimestampHandlerInterface",
   "Random\\Randomizer", "Random\\Engine", "Random\\CryptoSafeEngine", "Random\\Engine\\Mt19937",
   "Random\\Engine\\Secure", "Random\\Engine\\PcgOneseq128XslRr64",
   "Random\\Engine\\Xoshiro256StarStar", "Random\\RandomError", "Random\\BrokenRandomEngineError",
   "Random\\RandomException"]

/-- Built-in functions. -/
def functionNames : List String :=
  ["zend_version", "func_num_args", "func_get_arg", "func_get_args", "strlen", "strcmp", "strncmp",
   "strcasecmp", "strncasecmp", "error_reporting", "define", "defined", "constant", "get_class",
   "get_called_class", "get_parent_class", "method_exists", "property_exists", "class_exists",
   "interface_exists", "trait_exists", "enum_exists", "function_exists", "class_alias",
   "get_included_files", "get_required_files", "is_subclass_of", "is_a", "get_class_vars",
   "get_object_vars", "get_mangled_object_vars", "get_class_methods", "trigger_error",
   "user_error", "set_error_handler", "restore_error_handler", "set_exception_handler",
   "restore_exception_handler", "get_declared_classes", "get_declared_traits",
   "get_declared_interfaces", "get_defined_functions", "get_defined_vars", "get_resource_type",
   "get_resource_id", "get_resources", "get_loaded_extensions", "get_defined_constants",
   "debug_backtrace", "debug_print_backtrace", "extension_loaded", "get_extension_funcs",
   "gc_collect_cycles", "gc_enabled", "gc_enable", "gc_disable", "gc_status", "call_user_func",
   "call_user_func_array", "forward_static_call", "forward_static_call_array",
   "register_shutdown_function", "register_tick_function", "unregister_tick_function",
   "is_callable", "iterator_to_array", "iterator_count", "iterator_apply", "spl_autoload_register",
   "spl_autoload_unregister", "spl_autoload_functions", "spl_autoload_call",
   "spl_autoload_extensions", "spl_autoload", "spl_classes", "spl_object_hash", "spl_object_id",
   "class_implements", "class_parents", "class_uses", "boolval", "intval", "floatval", "doubleval",
   "strval", "settype", "gettype", "get_debug_type", "is_null", "is_resource", "is_bool", "is_int",
   "is_integer", "is_long", "is_float", "is_double", "is_numeric", "is_string", "is_array",
   "is_object", "is_scalar", "is_iterable", "is_countable", "var_dump", "var_export",
   "debug_zval_refcount", "print_r", "serialize", "unserialize", "memory_get_usage",
   "memory_get_peak_usage", "memory_reset_peak_usage", "addcslashes", "addslashes", "bin2hex",
   "chop", "chr", "chunk_split", "convert_uuencode", "convert_uudecode", "count_chars", "crc32",
   "crypt", "explode", "fprintf", "hex2bin", "html_entity_decode", "htmlentities",
   "htmlspecialchars", "htmlspecialchars_decode", "implode", "join", "lcfirst", "levenshtein",
   "localeconv", "ltrim", "md5", "md5_file", "metaphone", "nl2br", "number_format", "ord",
   "parse_str", "printf", "quoted_printable_decode", "quoted_printable_encode", "quotemeta",
   "rtrim", "setlocale", "sha1", "sha1_file", "similar_text", "soundex", "sprintf", "sscanf",
   "str_contains", "str_ends_with", "str_getcsv", "str_ireplace", "str_pad", "str_repeat",
   "str_replace", "str_rot13", "str_shuffle", "str_split", "str_starts_with", "str_word_count",
   "strcoll", "strcspn", "strip_tags", "stripcslashes", "stripos", "stripslashes", "stristr",
   "strnatcasecmp", "strnatcmp", "strpbrk", "strpos", "strrchr", "strrev", "strripos", "strrpos",
   "strspn", "strstr", "strtok", "strtolower", "strtoupper", "strtr", "substr", "substr_compare",
   "substr_count", "substr_replace", "trim", "ucfirst", "ucwords", "utf8_decode", "utf8_encode",
   "vfprintf", "vprintf", "vsprintf", "wordwrap", "nl_langinfo", "money_format", "uniqid",
   "lcg_value", "base64_encode", "base64_decode", "urlencode", "urldecode", "rawurlencode",
   "rawurldecode", "http_build_query", "parse_url", "get_headers", "dirname", "basename",
   "pathinfo", "realpath", "array_change_key_case", "array_chunk", "array_column", "array_combine",
   "array_count_values", "array_diff", "array_diff_assoc", "array_diff_key", "array_diff_uassoc",
   "array_diff_ukey", "array_fill", "array_fill_keys", "array_filter", "array_flip",
   "array_intersect", "array_intersect_assoc", "array_intersect_key", "array_intersect_uassoc",
   "array_intersect_ukey", "array_is_list", "array_key_exists", "key_exists", "array_key_first",
   "array_key_last", "array_keys", "array_map", "array_merge", "array_merge_recursive",
   "array_multisort", "array_pad", "array_pop", "array_product", "array_push", "array_rand",
   "array_reduce", "array_replace", "array_replace_recursive", "array_reverse", "array_search",
   "array_shift", "array_slice", "array_splice", "array_sum", "array_udiff", "array_udiff_assoc",
   "array_udiff_uassoc", "array_uintersect", "array_uintersect_assoc", "array_uintersect_uassoc",
   "array_unique", "array_unshift", "array_values", "array_walk", "array_walk_recursive",
   "array_find", "array_find_key", "array_any", "array_all", "arsort", "asort", "compact", "count",
   "sizeof", "current", "pos", "each", "end", "extract", "in_array", "key", "krsort", "ksort",
   "list", "natcasesort", "natsort", "next", "prev", "range", "reset", "rsort", "shuffle", "sort",
   "uasort", "uksort", "usort", "abs", "acos", "acosh", "asin", "asinh", "atan", "atan2", "atanh",
   "base_convert", "bindec", "ceil", "cos", "cosh", "decbin", "dechex", "decoct", "deg2rad", "exp",
   "expm1", "fdiv", "floor", "fmod", "hexdec", "hypot", "intdiv", "is_finite", "is_infinite",
   "is_nan", "log", "log10", "log1p", "max", "min", "octdec", "pi", "pow", "rad2deg", "round",
   "sin", "sinh", "sqrt", "tan", "tanh", "mt_rand", "mt_srand", "mt_getrandmax", "rand", "srand",
   "getrandmax", "random_bytes", "random_int", "ob_start", "ob_flush", "ob_clean", "ob_end_flush",
   "ob_end_clean", "ob_get_flush", "ob_get_clean", "ob_get_contents", "ob_get_length",
   "ob_get_level", "ob_get_status", "ob_implicit_flush", "ob_list_handlers", "flush",
   "output_add_rewrite_var", "output_reset_rewrite_vars", "fopen", "fclose", "feof", "fflush",
   "fgetc", "fgetcsv", "fgets", "file", "file_exists", "file_get_contents", "file_put_contents",
   "fileatime", "filectime", "filemtime", "fileperms", "filesize", "filetype", "flock", "fnmatch",
   "fpassthru", "fputcsv", "fputs", "fread", "fscanf", "fseek", "fstat", "ftell", "ftruncate",
   "fwrite", "glob", "is_dir", "is_executable", "is_file", "is_link", "is_readable", "is_writable",
   "is_writeable", "is_uploaded_file", "lchown", "link", "lstat", "mkdir", "move_uploaded_file",
   "readfile", "readlink", "rename", "rewind", "rmdir", "stat", "symlink", "tempnam", "tmpfile",
   "touch", "umask", "unlink", "chmod", "chown", "chgrp", "copy", "clearstatcache",
   "disk_free_space", "disk_total_space", "opendir", "readdir", "closedir", "rewinddir", "scandir",
   "dir", "getcwd", "chdir", "stream_context_create", "stream_get_contents",
   "stream_get_meta_data", "stream_wrapper_register", "stream_wrapper_unregister",
   "stream_wrapper_restore", "stream_get_wrappers", "stream_select", "stream_set_blocking",
   "stream_set_timeout", "stream_socket_client", "stream_socket_server", "stream_isatty",
   "stream_resolve_include_path", "stream_filter_append", "stream_filter_prepend",
   "stream_filter_register", "stream_filter_remove", "stream_copy_to_stream", "sys_get_temp_dir",
   "fsockopen", "popen", "pclose", "proc_open", "proc_close", "proc_get_status", "proc_terminate",
   "proc_nice", "escapeshellarg", "escapeshellcmd", "exec", "passthru", "shell_exec", "system",
   "parse_ini_file", "parse_ini_string", "ini_get", "ini_set", "ini_get_all", "ini_restore",
   "get_cfg_var", "set_include_path", "get_include_path", "phpversion", "php_sapi_name",
   "php_uname", "phpinfo", "getenv", "putenv", "getmypid", "getmyuid", "gethostname",
   "sys_getloadavg", "set_time_limit", "ignore_user_abort", "connection_aborted",
   "connection_status", "error_log", "error_get_last", "error_clear_last", "assert",
   "assert_options", "version_compare", "highlight_string", "highlight_file",
   "php_strip_whitespace", "sleep", "usleep", "time_nanosleep", "time_sleep_until", "microtime",
   "hrtime", "uniqid", "header", "headers_sent", "headers_list", "header_remove",
   "http_response_code", "setcookie", "setrawcookie", "session_start", "session_id",
   "session_destroy", "session_status", "session_write_close", "session_regenerate_id",
   "session_name", "gethostbyname", "cli_set_process_title", "opcache_get_status",
   "opcache_invalidate", "opcache_reset", "opcache_compile_file", "checkdate", "date",
   "date_create", "date_create_immutable", "date_default_timezone_get",
   "date_default_timezone_set", "date_diff", "date_parse", "getdate", "gmdate", "gmmktime",
   "idate", "localtime", "mktime", "strftime", "strtotime", "time", "timezone_identifiers_list",
   "timezone_open", "json_encode", "json_decode", "json_last_error", "json_last_error_msg",
   "json_validate", "preg_match", "preg_match_all", "preg_replace", "preg_replace_callback",
   "preg_replace_callback_array", "preg_split", "preg_quote", "preg_grep", "preg_last_error",
   "preg_last_error_msg", "mb_strlen", "mb_substr", "mb_strpos", "mb_strrpos", "mb_stripos",
   "mb_strripos", "mb_strtolower", "mb_strtoupper", "mb_convert_case", "mb_convert_encoding",
   "mb_check_encoding", "mb_detect_encoding", "mb_internal_encoding", "mb_str_split",
   "mb_substr_count", "mb_strwidth", "mb_strimwidth", "mb_str_pad", "mb_ord", "mb_chr", "mb_trim",
   "mb_ltrim", "mb_rtrim", "mb_ucfirst", "mb_lcfirst", "mb_list_encodings", "mb_encoding_aliases",
   "mb_scrub", "mb_strstr", "mb_stristr", "mb_strrchr", "ctype_alnum", "ctype_alpha",
   "ctype_cntrl", "ctype_digit", "ctype_graph", "ctype_lower", "ctype_print", "ctype_punct",
   "ctype_space", "ctype_upper", "ctype_xdigit", "iconv", "iconv_strlen", "iconv_substr",
   "iconv_strpos", "iconv_get_encoding", "iconv_set_encoding", "filter_var", "filter_input",
   "filter_var_array", "filter_has_var", "filter_list", "filter_id", "hash", "hash_algos",
   "hash_equals", "hash_file", "hash_hmac", "hash_init", "hash_update", "hash_final", "hash_copy",
   "hash_pbkdf2", "hash_hkdf", "password_hash", "password_verify", "password_needs_rehash",
   "password_get_info", "password_algos", "openssl_encrypt", "openssl_decrypt",
   "openssl_random_pseudo_bytes", "openssl_digest", "openssl_sign", "openssl_verify",
   "grapheme_strlen", "grapheme_substr", "grapheme_strpos", "normalizer_normalize",
   "normalizer_is_normalized", "idn_to_ascii", "idn_to_utf8", "eval", "exit", "die", "empty",
   "isset", "unset", "print", "echo", "include", "include_once", "require", "require_once"]

/-- Built-in constants. -/
def constantNames : List String :=
  ["__LINE__", "__FILE__", "__DIR__", "__FUNCTION__", "__CLASS__", "__TRAIT__", "__METHOD__",
   "__NAMESPACE__", "__PROPERTY__", "__COMPILER_HALT_OFFSET__", "TRUE", "FALSE", "NULL",
   "PHP_VERSION", "PHP_MAJOR_VERSION", "PHP_MINOR_VERSION", "PHP_RELEASE_VERSION",
   "PHP_EXTRA_VERSION", "PHP_VERSION_ID", "PHP_ZTS", "PHP_DEBUG", "PHP_OS", "PHP_OS_FAMILY",
   "PHP_SAPI", "PHP_EOL", "PHP_INT_MAX", "PHP_INT_MIN", "PHP_INT_SIZE", "PHP_FLOAT_EPSILON",
   "PHP_FLOAT_MAX", "PHP_FLOAT_MIN", "PHP_FLOAT_DIG", "PHP_MAXPATHLEN", "PHP_BINARY", "PHP_BINDIR",
   "PHP_LIBDIR", "PHP_DATADIR", "PHP_EXTENSION_DIR", "PHP_PREFIX", "PHP_SHLIB_SUFFIX",
   "PHP_FD_SETSIZE", "DEFAULT_INCLUDE_PATH", "PEAR_INSTALL_DIR", "PEAR_EXTENSION_DIR",
   "DIRECTORY_SEPARATOR", "PATH_SEPARATOR", "STDIN", "STDOUT", "STDERR", "E_ERROR", "E_WARNING",
   "E_PARSE", "E_NOTICE", "E_CORE_ERROR", "E_CORE_WARNING", "E_COMPILE_ERROR", "E_COMPILE_WARNING",
   "E_USER_ERROR", "E_USER_WARNING", "E_USER_NOTICE", "E_DEPRECATED", "E_USER_DEPRECATED",
   "E_RECOVERABLE_ERROR", "E_STRICT", "E_ALL", "NAN", "INF", "M_PI", "M_E", "M_LOG2E", "M_LOG10E",
   "M_LN2", "M_LN10", "M_PI_2", "M_PI_4", "M_1_PI", "M_2_PI", "M_SQRTPI", "M_2_SQRTPI", "M_SQRT2",
   "M_SQRT3", "M_SQRT1_2", "M_LNPI", "M_EULER", "PHP_ROUND_HALF_UP", "PHP_ROUND_HALF_DOWN",
   "PHP_ROUND_HALF_EVEN", "PHP_ROUND_HALF_ODD", "MT_RAND_MT19937", "MT_RAND_PHP", "ENT_QUOTES",
   "ENT_COMPAT", "ENT_NOQUOTES", "ENT_HTML401", "ENT_HTML5", "ENT_XML1", "ENT_XHTML", "ENT_IGNORE",
   "ENT_SUBSTITUTE", "ENT_DISALLOWED", "STR_PAD_LEFT", "STR_PAD_RIGHT", "STR_PAD_BOTH", "LC_ALL",
   "LC_COLLATE", "LC_CTYPE", "LC_MONETARY", "LC_NUMERIC", "LC_TIME", "LC_MESSAGES", "SORT_ASC",
   "SORT_DESC", "SORT_REGULAR", "SORT_NUMERIC", "SORT_STRING", "SORT_LOCALE_STRING",
   "SORT_NATURAL", "SORT_FLAG_CASE", "COUNT_NORMAL", "COUNT_RECURSIVE", "ARRAY_FILTER_USE_KEY",
   "ARRAY_FILTER_USE_BOTH", "EXTR_OVERWRITE", "EXTR_SKIP", "EXTR_PREFIX_SAME", "EXTR_PREFIX_ALL",
   "EXTR_PREFIX_INVALID", "EXTR_IF_EXISTS", "EXTR_PREFIX_IF_EXISTS", "EXTR_REFS", "CASE_LOWER",
   "CASE_UPPER", "HTML_SPECIALCHARS", "HTML_ENTITIES", "SEEK_SET", "SEEK_CUR", "SEEK_END",
   "LOCK_SH", "LOCK_EX", "LOCK_UN", "LOCK_NB", "FILE_USE_INCLUDE_PATH", "FILE_IGNORE_NEW_LINES",
   "FILE_SKIP_EMPTY_LINES", "FILE_APPEND", "FILE_NO_DEFAULT_CONTEXT", "GLOB_BRACE", "GLOB_MARK",
   "GLOB_NOSORT", "GLOB_NOCHECK", "GLOB_NOESCAPE", "GLOB_ERR", "GLOB_ONLYDIR", "PATHINFO_DIRNAME",
   "PATHINFO_BASENAME", "PATHINFO_EXTENSION", "PATHINFO_FILENAME", "SCANDIR_SORT_ASCENDING",
   "SCANDIR_SORT_DESCENDING", "SCANDIR_SORT_NONE", "FNM_NOESCAPE", "FNM_PATHNAME", "FNM_PERIOD",
   "FNM_CASEFOLD", "INI_SCANNER_NORMAL", "INI_SCANNER_RAW", "INI_SCANNER_TYPED", "PHP_URL_SCHEME",
   "PHP_URL_HOST", "PHP_URL_PORT", "PHP_URL_USER", "PHP_URL_PASS", "PHP_URL_PATH", "PHP_URL_QUERY",
   "PHP_URL_FRAGMENT", "PHP_QUERY_RFC1738", "PHP_QUERY_RFC3986", "JSON_HEX_TAG", "JSON_HEX_AMP",
   "JSON_HEX_APOS", "JSON_HEX_QUOT", "JSON_FORCE_OBJECT", "JSON_NUMERIC_CHECK",
   "JSON_UNESCAPED_SLASHES", "JSON_PRETTY_PRINT", "JSON_UNESCAPED_UNICODE",
   "JSON_PARTIAL_OUTPUT_ON_ERROR", "JSON_PRESERVE_ZERO_FRACTION",
   "JSON_UNESCAPED_LINE_TERMINATORS", "JSON_OBJECT_AS_ARRAY", "JSON_BIGINT_AS_STRING",
   "JSON_INVALID_UTF8_IGNORE", "JSON_INVALID_UTF8_SUBSTITUTE", "JSON_THROW_ON_ERROR",
   "JSON_ERROR_NONE", "JSON_ERROR_DEPTH", "JSON_ERROR_STATE_MISMATCH", "JSON_ERROR_CTRL_CHAR",
   "JSON_ERROR_SYNTAX", "JSON_ERROR_UTF8", "PREG_PATTERN_ORDER", "PREG_SET_ORDER",
   "PREG_OFFSET_CAPTURE", "PREG_UNMATCHED_AS_NULL", "PREG_SPLIT_NO_EMPTY",
   "PREG_SPLIT_DELIM_CAPTURE", "PREG_SPLIT_OFFSET_CAPTURE", "PREG_GREP_INVERT", "PREG_NO_ERROR",
   "PREG_INTERNAL_ERROR", "PREG_BACKTRACK_LIMIT_ERROR", "PREG_RECURSION_LIMIT_ERROR",
   "PREG_BAD_UTF8_ERROR", "PREG_BAD_UTF8_OFFSET_ERROR", "PREG_JIT_STACKLIMIT_ERROR",
   "PCRE_VERSION", "MB_CASE_UPPER", "MB_CASE_LOWER", "MB_CASE_TITLE", "MB_CASE_FOLD",
   "MB_CASE_UPPER_SIMPLE", "MB_CASE_LOWER_SIMPLE", "MB_CASE_TITLE_SIMPLE", "MB_CASE_FOLD_SIMPLE",
   "FILTER_VALIDATE_INT", "FILTER_VALIDATE_BOOLEAN", "FILTER_VALIDATE_BOOL",
   "FILTER_VALIDATE_FLOAT", "FILTER_VALIDATE_REGEXP", "FILTER_VALIDATE_DOMAIN",
   "FILTER_VALIDATE_URL", "FILTER_VALIDATE_EMAIL", "FILTER_VALIDATE_IP", "FILTER_VALIDATE_MAC",
   "FILTER_DEFAULT", "FILTER_UNSAFE_RAW", "FILTER_NULL_ON_FAILURE", "FILTER_FLAG_IPV4",
   "FILTER_FLAG_IPV6", "FILTER_FORCE_ARRAY", "FILTER_REQUIRE_ARRAY", "FILTER_REQUIRE_SCALAR",
   "PASSWORD_DEFAULT", "PASSWORD_BCRYPT", "PASSWORD_ARGON2I", "PASSWORD_ARGON2ID",
   "OPENSSL_RAW_DATA", "OPENSSL_ZERO_PADDING", "DATE_ATOM", "DATE_COOKIE", "DATE_ISO8601",
   "DATE_RFC822", "DATE_RFC850", "DATE_RFC1036", "DATE_RFC1123", "DATE_RFC7231", "DATE_RFC2822",
   "DATE_RFC3339", "DATE_RFC3339_EXTENDED", "DATE_RSS", "DATE_W3C",
   "DEBUG_BACKTRACE_PROVIDE_OBJECT", "DEBUG_BACKTRACE_IGNORE_ARGS", "CONNECTION_ABORTED",
   "CONNECTION_NORMAL", "CONNECTION_TIMEOUT", "PHP_OUTPUT_HANDLER_STDFLAGS",
   "PHP_OUTPUT_HANDLER_CLEANABLE", "PHP_OUTPUT_HANDLER_FLUSHABLE", "PHP_OUTPUT_HANDLER_REMOVABLE",
   "PHP_SESSION_DISABLED", "PHP_SESSION_NONE", "PHP_SESSION_ACTIVE", "UPLOAD_ERR_OK",
   "UPLOAD_ERR_INI_SIZE", "UPLOAD_ERR_FORM_SIZE", "UPLOAD_ERR_PARTIAL", "UPLOAD_ERR_NO_FILE",
   "UPLOAD_ERR_NO_TMP_DIR", "UPLOAD_ERR_CANT_WRITE", "UPLOAD_ERR_EXTENSION",
   "PHP_WINDOWS_VERSION_MAJOR", "PHP_WINDOWS_VERSION_MINOR", "PHP_WINDOWS_VERSION_BUILD"]

end PhpPrefixer.NativeSymbols
